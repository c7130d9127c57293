import Mathlib.Data.Finset.Card
import Mathlib.Order.Interval.Finset.Nat

/-!
# Shortcuts taken in place

Every place leads to a place. To take a shortcut at a place is to let it lead to where its successor
leads; a round takes a shortcut at every listed place in turn, so that later places see what earlier
ones came to. Places that lead to themselves stay as they are.

In a round every place gets at least twice as far along the ways that there were at first. That
alone says nothing of circles, on which one can go on for ever. But every shortcut within a circle
leaves a place of it out, so a circle that is still there after a round has at most half of its
places. With as many rounds as there are places, the first half of them leaves no circles and the
other half brings every place to an end (`jumpAll_settles`).
-/

namespace TypeInference.Shortcuts

open Function

variable {α : Type} {base next : α → α} {place : α} {places : List α}

section Distance

/-- A place leads at least some steps ahead on ways that there were. -/
def Advances (base next : α → α) (steps : Nat) (place : α) : Prop :=
  ∃ count, steps ≤ count ∧ next place = base^[count] place

/-- A place that leads to itself is any number of steps ahead. -/
theorem Advances.of_fixed {steps : Nat} (fixed : base place = place)
    (still : next place = place) : Advances base next steps place :=
  ⟨steps, Nat.le_refl _, by rw [still, iterate_fixed fixed]⟩

end Distance

variable [DecidableEq α]

/-- The ways after a shortcut at a place. -/
def jump (next : α → α) (place : α) : α → α :=
  Function.update next place (next (next place))

/-- The ways after shortcuts at several places in turn. -/
def jumpAll (places : List α) (next : α → α) : α → α :=
  places.foldl jump next

theorem jump_self (next : α → α) (place : α) : jump next place place = next (next place) :=
  Function.update_self ..

theorem jump_of_ne {other : α} (apart : other ≠ place) : jump next place other = next other :=
  Function.update_of_ne apart ..

/-- A place that leads to itself stays. -/
theorem jump_of_fixed {other : α} (fixed : next other = other) :
    jump next place other = other := by
  by_cases same : other = place
  · rw [← same, jump_self, fixed, fixed]
  · rw [jump_of_ne same, fixed]

theorem jumpAll_of_fixed {other : α} (fixed : next other = other) :
    jumpAll places next other = other := by
  induction places generalizing next with
  | nil => exact fixed
  | cons place rest inductionHypothesis => exact inductionHypothesis (jump_of_fixed fixed)

theorem iterate_jumpAll_of_fixed {other : α} (fixed : next other = other) (rounds : Nat) :
    (jumpAll places)^[rounds] next other = other := by
  induction rounds with
  | zero => exact fixed
  | succ rounds inductionHypothesis =>
    rw [iterate_succ_apply']
    exact jumpAll_of_fixed inductionHypothesis

section Distance

/-- A shortcut adds the steps of the successor, and other places lead where they led. -/
theorem Advances.jump {steps : Nat} (all : ∀ place, Advances base next steps place) :
    Advances base (jump next place) (2 * steps) place := by
  obtain ⟨first, far, reached⟩ := all place
  obtain ⟨second, further, followed⟩ := all (next place)
  refine ⟨second + first, by omega, ?_⟩
  rw [jump_self, followed, reached, ← iterate_add_apply]

/-- Places where a shortcut was taken, and those that are further ahead anyway, are twice as far
ahead after a round. -/
theorem Advances.jumpAll {steps : Nat} (all : ∀ place, Advances base next steps place)
    {other : α} (ahead : other ∈ places ∨ Advances base next (2 * steps) other) :
    Advances base (jumpAll places next) (2 * steps) other := by
  induction places generalizing next with
  | nil => exact ahead.resolve_left List.not_mem_nil
  | cons place rest inductionHypothesis =>
    have kept {bound : Nat} (lower : bound ≤ 2 * steps) {other : α}
        (ahead : Advances base next bound other) :
        Advances base (Shortcuts.jump next place) bound other := by
      by_cases same : other = place
      · subst same
        obtain ⟨count, far, reached⟩ := Advances.jump all
        exact ⟨count, lower.trans far, reached⟩
      · exact ahead.imp fun count known => ⟨known.1, (jump_of_ne same).trans known.2⟩
    refine inductionHypothesis (fun other => kept (by omega) (all other)) ?_
    rcases ahead with listed | ahead
    · rcases List.mem_cons.mp listed with rfl | later
      · exact .inr (Advances.jump all)
      · exact .inl later
    · exact .inr (kept le_rfl ahead)

/-- After some rounds every place is ahead by a power of two. -/
theorem advances_iterate (still : ∀ place ∉ places, base place = place) (rounds : Nat) :
    ∀ place, Advances base ((jumpAll places)^[rounds] base) (2 ^ rounds) place := by
  induction rounds with
  | zero => exact fun place => ⟨1, le_rfl, rfl⟩
  | succ rounds inductionHypothesis =>
    intro place
    rw [iterate_succ_apply', Nat.pow_succ']
    refine .jumpAll inductionHypothesis ?_
    by_cases listed : place ∈ places
    · exact .inl listed
    · exact .inr (.of_fixed (still place listed) (iterate_jumpAll_of_fixed (still place listed) _))

end Distance

section Circles

/-- Places that are also their successors, none of them its own: one or more circles. -/
structure Circles (next : α → α) (moved : Finset α) : Prop where
  onto : moved.image next = moved
  moves : ∀ place ∈ moved, next place ≠ place

variable {moved : Finset α}

theorem Circles.next_mem (circles : Circles next moved) (listed : place ∈ moved) :
    next place ∈ moved :=
  circles.onto ▸ Finset.mem_image_of_mem next listed

/-- Different places of circles have different successors. -/
theorem Circles.injective (circles : Circles next moved) : Set.InjOn next moved :=
  Finset.injOn_of_card_image_eq (congrArg Finset.card circles.onto)

/-- No circle has a single place. -/
theorem Circles.two_le_card (circles : Circles next moved) (listed : place ∈ moved) :
    2 ≤ moved.card :=
  Finset.one_lt_card.mpr ⟨_, circles.next_mem listed, _, listed, circles.moves place listed⟩

/-- Circles after a shortcut were there before. If the shortcut is on one of them, that had one
place more, which is left out now: no other place of the circles can lead where its successor leads.
-/
theorem Circles.before_jump (circles : Circles (jump next place) moved) :
    ∃ earlier, Circles next earlier ∧ moved ⊆ earlier ∧
      earlier.card = moved.card + if place ∈ moved then 1 else 0 := by
  have others (kept : Finset α) (apart : place ∉ kept) :
      kept.image (jump next place) = kept.image next :=
    Finset.image_congr fun other listed => jump_of_ne fun same => apart (same ▸ listed)
  by_cases among : place ∈ moved
  · have moves : next place ≠ place := fun fixed =>
      circles.moves place among (jump_of_fixed fixed)
    have leftOut : next place ∉ moved := fun listed =>
      moves (circles.injective listed among (by rw [jump_of_ne moves, jump_self]))
    refine ⟨insert (next place) moved, ⟨?_, ?_⟩, Finset.subset_insert _ _,
      by rw [Finset.card_insert_of_notMem leftOut, if_pos among]⟩
    · have ahead : insert (next (next place)) ((moved.erase place).image next) = moved := by
        rw [← others _ (Finset.notMem_erase place moved), ← jump_self next, ← Finset.image_insert,
          Finset.insert_erase among, circles.onto]
      have behind : moved.image next =
          insert (next place) ((moved.erase place).image next) := by
        rw [← Finset.image_insert, Finset.insert_erase among]
      rw [Finset.image_insert, behind, Finset.insert_comm, ahead]
    · intro other listed
      rcases Finset.mem_insert.mp listed with rfl | before
      · intro fixed
        exact leftOut (fixed ▸ jump_self next place ▸ circles.next_mem among)
      · by_cases same : other = place
        · exact same ▸ moves
        · exact (jump_of_ne same).symm.trans_ne (circles.moves other before)
  · refine ⟨moved, ⟨others moved among ▸ circles.onto, fun other listed => ?_⟩, subset_rfl,
      by rw [if_neg among, Nat.add_zero]⟩
    have apart : other ≠ place := fun same => among (same ▸ listed)
    exact (jump_of_ne apart).symm.trans_ne (circles.moves other listed)

/-- Of circles that are there after several shortcuts there was one place more for every shortcut on
them. -/
theorem Circles.before_jumpAll (circles : Circles (jumpAll places next) moved) :
    ∃ earlier, Circles next earlier ∧ moved ⊆ earlier ∧
      moved.card + (places.filter (· ∈ moved)).length ≤ earlier.card := by
  induction places generalizing next with
  | nil => exact ⟨moved, circles, subset_rfl, le_rfl⟩
  | cons place rest inductionHypothesis =>
    obtain ⟨middle, between, within, size⟩ := inductionHypothesis circles
    obtain ⟨earlier, before, inside, larger⟩ := between.before_jump
    refine ⟨earlier, before, within.trans inside, ?_⟩
    by_cases among : place ∈ moved
    · rw [if_pos (within among)] at larger
      simp only [List.filter_cons, among, decide_true, if_true, List.length_cons]
      omega
    · simp only [List.filter_cons, among, decide_false, Bool.false_eq_true, if_false]
      omega

/-- All of the places of circles are listed, if places that are not lead to themselves. -/
theorem Circles.card_le (circles : Circles next moved)
    (still : ∀ place ∉ places, next place = place) :
    moved.card ≤ (places.filter (· ∈ moved)).length := by
  have listed : moved ⊆ (places.filter (· ∈ moved)).toFinset := by
    intro place among
    have known : place ∈ places := by
      by_contra absent
      exact circles.moves place among (still place absent)
    exact List.mem_toFinset.mpr (List.mem_filter.mpr ⟨known, decide_eq_true among⟩)
  exact (Finset.card_le_card listed).trans (List.toFinset_card_le _)

/-- Circles that are still there after some rounds had many more places. -/
theorem Circles.before_rounds (still : ∀ place ∉ places, next place = place) (rounds : Nat) :
    ∀ {moved : Finset α}, Circles ((jumpAll places)^[rounds] next) moved →
      ∃ earlier, Circles next earlier ∧ 2 ^ rounds * moved.card ≤ earlier.card := by
  induction rounds with
  | zero => exact fun circles => ⟨_, circles, by rw [Nat.pow_zero, Nat.one_mul]⟩
  | succ rounds inductionHypothesis =>
    intro moved circles
    rw [iterate_succ_apply'] at circles
    obtain ⟨middle, between, within, size⟩ := circles.before_jumpAll
    obtain ⟨earlier, before, larger⟩ := inductionHypothesis between
    refine ⟨earlier, before, ?_⟩
    have halved := circles.card_le fun place absent =>
      jumpAll_of_fixed (iterate_jumpAll_of_fixed (still place absent) rounds)
    calc 2 ^ (rounds + 1) * moved.card = 2 ^ rounds * (2 * moved.card) := by
          rw [Nat.pow_succ, Nat.mul_assoc]
      _ ≤ 2 ^ rounds * middle.card := Nat.mul_le_mul_left _ (by omega)
      _ ≤ earlier.card := larger

/-- A way that comes back to where it was leads in a circle. -/
theorem exists_circles_of_return {start : α} {first last : Nat} (later : first < last)
    (back : next^[last] start = next^[first] start)
    (moves : ∀ count < last, next (next^[count] start) ≠ next^[count] start) :
    ∃ moved, Circles next moved ∧ moved.Nonempty := by
  refine ⟨(Finset.Ico first last).image fun count => next^[count] start, ⟨?_, ?_⟩,
    (Finset.nonempty_Ico.mpr later).image _⟩
  · ext place
    simp only [Finset.image_image, Finset.mem_image, Finset.mem_Ico, comp_apply,
      ← iterate_succ_apply']
    constructor
    · rintro ⟨count, ⟨after, before⟩, rfl⟩
      rcases Nat.lt_or_eq_of_le before with inside | ends
      · exact ⟨count + 1, ⟨by omega, inside⟩, rfl⟩
      · exact ⟨first, ⟨le_rfl, later⟩, by rw [← back, ← ends]⟩
    · rintro ⟨count, ⟨after, before⟩, rfl⟩
      rcases Nat.eq_or_lt_of_le after with rfl | inside
      · obtain ⟨previous, rfl⟩ := Nat.exists_eq_add_one_of_ne_zero (Nat.ne_zero_of_lt later)
        exact ⟨previous, ⟨by omega, by omega⟩, back⟩
      · obtain ⟨previous, rfl⟩ := Nat.exists_eq_add_one_of_ne_zero (Nat.ne_zero_of_lt inside)
        exact ⟨previous, ⟨by omega, by omega⟩, rfl⟩
  · intro place listed
    obtain ⟨count, inside, rfl⟩ := Finset.mem_image.mp listed
    exact moves count (Finset.mem_Ico.mp inside).2

/-- A way that has not come to rest after as many steps as there are places leads into a circle. -/
theorem exists_circles_of_long (still : ∀ place ∉ places, next place = place) {start : α}
    {count : Nat} (long : places.length ≤ count)
    (moves : next (next^[count] start) ≠ next^[count] start) :
    ∃ moved, Circles next moved ∧ moved.Nonempty := by
  have restless (earlier : Nat) (before : earlier ≤ count) :
      next (next^[earlier] start) ≠ next^[earlier] start := by
    intro fixed
    have same : next^[count] start = next^[earlier] start := by
      rw [← Nat.sub_add_cancel before, iterate_add_apply, iterate_fixed fixed]
    exact moves (same ▸ fixed)
  have crowded : places.toFinset.card < (Finset.range (count + 1)).card := by
    have few := places.toFinset_card_le
    rw [Finset.card_range]
    omega
  obtain ⟨first, inside, last, among, apart, back⟩ :=
    Finset.exists_ne_map_eq_of_card_lt_of_maps_to crowded
      (f := fun earlier => next^[earlier] start) fun earlier before => List.mem_toFinset.mpr <| by
        by_contra absent
        exact restless earlier (Nat.lt_succ_iff.mp (Finset.mem_range.mp before))
          (still _ absent)
  have bounded {earlier : Nat} (inside : earlier ∈ Finset.range (count + 1)) (before : Nat)
      (lower : before < earlier) : next (next^[before] start) ≠ next^[before] start :=
    restless before (by have := Finset.mem_range.mp inside; omega)
  rcases Nat.lt_or_gt_of_ne apart with later | later
  · exact exists_circles_of_return later back.symm (bounded among)
  · exact exists_circles_of_return later back (bounded inside)

end Circles

/-- With as many rounds as there are places, every place leads to one that leads to itself.

Proof: what circles there are after half of the rounds had more places at first than there are,
since each round took away half of them. So there are none then, and every way comes to rest within
as many steps as there are places. The other half of the rounds takes every place that far. -/
theorem jumpAll_settles (still : ∀ place ∉ places, next place = place) (place : α) :
    let last := (jumpAll places)^[places.length] next
    last (last place) = last place := by
  intro last
  let half := places.length / 2
  let rest := places.length - half
  let middle := (jumpAll places)^[half] next
  have stillThen (place : α) (absent : place ∉ places) : middle place = place :=
    iterate_jumpAll_of_fixed (still place absent) half
  have split : last = (jumpAll places)^[rest] middle := by
    rw [← iterate_add_apply, Nat.sub_add_cancel (Nat.div_le_self _ 2)]
  have straight (moved : Finset α) (circles : Circles middle moved) : ¬moved.Nonempty := by
    rintro ⟨place, listed⟩
    obtain ⟨earlier, before, size⟩ := circles.before_rounds still half
    have few := (before.card_le still).trans (List.length_filter_le ..)
    have many := Nat.mul_le_mul_left (2 ^ half) (circles.two_le_card listed)
    have power : half < 2 ^ half := Nat.lt_two_pow_self
    omega
  obtain ⟨count, far, reached⟩ := advances_iterate stillThen rest place
  have long : places.length ≤ count := by
    have power : rest - 1 < 2 ^ (rest - 1) := Nat.lt_two_pow_self
    rcases Nat.eq_zero_or_pos rest with none | some
    · omega
    · have double : 2 ^ rest = 2 * 2 ^ (rest - 1) := by
        rw [← Nat.pow_succ', Nat.succ_eq_add_one, Nat.sub_add_cancel some]
      omega
  have fixed : middle (last place) = last place := by
    by_contra moves
    rw [split, reached] at moves
    obtain ⟨moved, circles, nonempty⟩ := exists_circles_of_long stillThen long moves
    exact straight moved circles nonempty
  rw [split] at fixed ⊢
  exact iterate_jumpAll_of_fixed fixed rest

end TypeInference.Shortcuts
