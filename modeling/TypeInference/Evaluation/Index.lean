import TypeInference.Evaluation.Call

/-!
# Items of containers

An index into a list or tuple whose items are known gives the item at its place;
where the place is not known, or lies in items that were not evaluated, the
first item stands for it. An index into a known mapping gives the value of its
key, or the first value. Other objects are asked by their method.
-/

namespace TypeInference

/-- The item of a sequence that an index selects. -/
def SequenceContent.select (content : SequenceContent) (position : Value) : Value :=
  match position.asConstant?.bind Constant.asInt with
  | some index =>
    match content.at? index.toInt with
    | some item => item
    | none => if content.exact then .unknown else content.first?.getD .unknown
  | none => content.first?.getD .unknown

/-- The value of a mapping that an index selects. -/
def MappingContent.select (content : MappingContent) (key : Value) : Value :=
  ((key.asConstant?.bind content.find?).or content.firstValue?).getD .unknown

/-- Whether a value may be a place in a sequence: it is not known, or an integer. -/
def Store.isPosition (store : Store) (position : Value) : Bool :=
  position.isUnknown || match store.builtin? (store.typeOf position) with
    | some builtin => builtin.isInteger
    | none => false

namespace Engine

/-- The item of an object found by its own method. -/
def itemByMethod (engine : Engine) (container position : Value) (span : Span) :
    Analysis Value := do
  let store ← Analysis.store
  match (store.typeOf container).asClass?, container.isObject with
  | some id, true =>
    let method ← engine.constructedMethod? id "__getitem__"
    engine.callMethod method container [position] [] span
  | _, _ => return .unknown

/-- The item of a container at an evaluated index. An index that cannot be a place
in a sequence is reported at its own span. -/
def itemAt (engine : Engine) (container position : Value) (positionSpan span : Span) :
    Analysis Value := do
  let store ← Analysis.store
  let nature := store.builtin? (store.typeOf container)
  let tracked := if (nature.map Builtin.isSequence).getD false then container.asSequence? else none
  match tracked with
  | some content =>
    if store.isPosition position then return content.select position
    else
      Analysis.report (.badIndexType (store.typeName (store.typeOf position))) positionSpan
      return content.first?.getD .unknown
  | none =>
    match container.asMapping? with
    | some content => return content.select position
    | none => engine.itemByMethod container position span

end Engine

end TypeInference
