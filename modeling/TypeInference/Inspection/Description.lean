import TypeInference.Inspection.Vocabulary
import TypeInference.Source.Position
import TypeInference.Store.Naming

/-!
# Descriptions

A description is plain data about the objects of a store. Classes and functions
refer to one another without end, so data names them by numbers, given in the
order in which the objects are first mentioned. Whoever describes several things
one after the other mentions objects by the same numbers throughout.
-/

namespace TypeInference

/-- Plain data. -/
inductive Data where
  | nothing
  | flag (value : Bool)
  | number (value : Int)
  | text (value : String)
  | list (items : List Data)
  | record (fields : List (String × Data))
deriving Inhabited

/-- The objects mentioned so far; the place of each is its number. -/
structure Mentions where
  classes : List ClassId := []
  functions : List FunctionId := []
deriving Inhabited

/-- What a description can see: the objects, and whether identities are shown. -/
structure Exhibit where
  store : Store
  showsHashes : Bool := false

/-- A description in the making, which may mention further objects. -/
abbrev Description := ReaderT Exhibit (StateM Mentions)

namespace Description

/-- The store whose objects are described. -/
def store : Description Store := return (← read).store

/-- The number of an object among those mentioned, and the list with it. -/
def numberIn {α : Type} [DecidableEq α] (mentioned : List α) (object : α) : Nat × List α :=
  match mentioned.idxOf? object with
  | some number => (number, mentioned)
  | none => (mentioned.length, mentioned ++ [object])

/-- Mentions a class. -/
def mentionClass (id : ClassId) : Description Nat :=
  modifyGet fun mentions =>
    let (number, classes) := numberIn mentions.classes id
    (number, { mentions with classes })

/-- Mentions a function. -/
def mentionFunction (id : FunctionId) : Description Nat :=
  modifyGet fun mentions =>
    let (number, functions) := numberIn mentions.functions id
    (number, { mentions with functions })

/-- A mentioned object stands at its number. -/
theorem getElem?_numberIn {α : Type} [DecidableEq α] (mentioned : List α) (object : α) :
    (numberIn mentioned object).2[(numberIn mentioned object).1]? = some object := by
  unfold numberIn
  split
  · next number found =>
    obtain ⟨inside, same, _⟩ := List.idxOf?_eq_some_iff.mp found
    simp [List.getElem?_eq_getElem inside, same]
  · simp

/-- Mentioning an object changes no number given before. -/
theorem prefix_numberIn {α : Type} [DecidableEq α] (mentioned : List α) (object : α) :
    mentioned <+: (numberIn mentioned object).2 := by
  unfold numberIn
  split
  · exact List.prefix_rfl
  · exact List.prefix_append mentioned [object]

end Description

/-- What can be described. -/
class Describe (α : Type) where
  describe : α → Description Data

export Describe (describe)

/-- What can be described in a row with others. -/
class DescribeRow (α : Type) where
  describeRow : α → Description (List Data)

export DescribeRow (describeRow)

namespace Description

/-- A record whose fields are described in order. -/
def record (fields : List (String × Description Data)) : Description Data :=
  return .record (← fields.mapM fun field => return (field.1, ← field.2))

/-- A list whose items are described in order. -/
def list {α : Type} (describe : α → Description Data) (items : List α) : Description Data :=
  return .list (← items.mapM describe)

end Description

instance : Describe Data := ⟨pure⟩

instance : Describe String := ⟨fun text => pure (.text text)⟩

instance : Describe Bool := ⟨fun flag => pure (.flag flag)⟩

instance : Describe Int := ⟨fun number => pure (.number number)⟩

instance : Describe Nat := ⟨fun number => pure (.number number)⟩

instance : Describe Unit := ⟨fun _ => pure .nothing⟩

instance {α : Type} [Describe α] : Describe (List α) := ⟨Description.list describe⟩

instance {α : Type} [Describe α] : Describe (Option α) where
  describe
    | some value => describe value
    | none => pure .nothing

instance (priority := low) {α : Type} [Describe α] : DescribeRow α where
  describeRow value := return [← describe value]

instance {α β : Type} [Describe α] [DescribeRow β] : DescribeRow (α × β) where
  describeRow pair := return (← describe pair.1) :: (← describeRow pair.2)

instance {α β : Type} [Describe α] [DescribeRow β] : Describe (α × β) where
  describe pair := return .list (← describeRow pair)

instance (priority := low) {α : Type} [Worded α] [DecidableEq α] : Describe α where
  describe value := describe (Worded.word? value)

instance (priority := low) {α : Type} [FlagSet α] [DecidableEq α] : Describe α where
  describe set := describe (FlagSet.words set)

instance : Describe NodeId := ⟨fun node => describe node.number⟩

instance : Describe ScopeId := ⟨fun id => describe id.index⟩

instance : Describe DocumentId := ⟨fun document => describe document.location⟩

instance : Describe TypeHash := ⟨fun hash => describe hash.text⟩

instance : Describe Span where
  describe span :=
    describe (span.start.line, span.start.column, span.stop.line, span.stop.column)

instance : Describe Ordering where
  describe
    | .lt => describe "Less"
    | .eq => describe "Equal"
    | .gt => describe "Greater"

end TypeInference
