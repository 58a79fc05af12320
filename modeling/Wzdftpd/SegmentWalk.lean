import Mathlib.Data.List.Basic

/- Walks in a tree whose nodes are named by the list of names on the way down
from the root. The names have an arbitrary type. Going up from the root stays
at the root. -/
namespace SegmentWalk

open List

variable {α : Type}

inductive Seg (α : Type) where
  | stay
  | up
  | down (name : α)
  deriving DecidableEq, Repr

def move (place : List α) : Seg α → List α
  | .stay => place
  | .up => place.dropLast
  | .down name => place ++ [name]

def walk (place : List α) (segs : List (Seg α)) : List α := segs.foldl move place

@[simp] theorem walk_nil (place : List α) : walk place [] = place := rfl

@[simp] theorem walk_cons (place : List α) (seg : Seg α) (segs : List (Seg α)) :
    walk place (seg :: segs) = walk (move place seg) segs := rfl

theorem walk_append (place : List α) (first second : List (Seg α)) :
    walk place (first ++ second) = walk (walk place first) second := by
  simp [walk]

theorem walk_down (place names : List α) : walk place (names.map .down) = place ++ names := by
  induction names generalizing place with
  | nil => simp
  | cons name names ih =>
    simp [map_cons, move, ih]

/-- The net effect of a walk: the levels it ends up having climbed above its
start, and the names it then enters. -/
structure Net (α : Type) where
  ups : Nat
  names : List α
  deriving DecidableEq, Repr

def Net.step (n : Net α) : Seg α → Net α
  | .stay => n
  | .up => match n.names with
      | [] => ⟨n.ups + 1, []⟩
      | name :: names => ⟨n.ups, (name :: names).dropLast⟩
  | .down name => ⟨n.ups, n.names ++ [name]⟩

def net (segs : List (Seg α)) : Net α := segs.foldl Net.step ⟨0, []⟩

def Net.apply (n : Net α) (place : List α) : List α :=
  place.take (place.length - n.ups) ++ n.names

theorem move_apply (n : Net α) (place : List α) (seg : Seg α) :
    move (n.apply place) seg = (n.step seg).apply place := by
  obtain ⟨_, names⟩ := n
  cases seg with
  | stay => rfl
  | down name => simp only [move, Net.apply, Net.step, append_assoc]
  | up =>
    cases names with
    | nil =>
      simp only [move, Net.apply, Net.step, append_nil]
      rw [dropLast_eq_take, take_take, length_take]
      congr 1
      omega
    | cons name names =>
      simp only [move, Net.apply, Net.step]
      rw [dropLast_append_of_ne_nil (by simp)]

theorem walk_apply (n : Net α) (place : List α) (segs : List (Seg α)) :
    walk (n.apply place) segs = (segs.foldl Net.step n).apply place := by
  induction segs generalizing n with
  | nil => rfl
  | cons seg segs ih => rw [walk_cons, move_apply, ih, foldl_cons]

theorem walk_eq_net (place : List α) (segs : List (Seg α)) :
    walk place segs = (net segs).apply place := by
  have start : (⟨0, []⟩ : Net α).apply place = place := by simp [Net.apply]
  rw [net, ← walk_apply, start]

/-- A walk that starts below a place ends below it exactly when the names it
enters after its highest climb repeat the levels of the place that it has
climbed. -/
theorem prefix_walk_iff (place below : List α) (segs : List (Seg α)) :
    place <+: walk (place ++ below) segs ↔
      place.drop (place.length - ((net segs).ups - below.length)) <+: (net segs).names := by
  rw [walk_eq_net, Net.apply]
  by_cases low : (net segs).ups ≤ below.length
  · have kept : place <+: (place ++ below).take ((place ++ below).length - (net segs).ups) := by
      rw [prefix_take_iff, length_append]
      exact ⟨prefix_append _ _, by omega⟩
    have level : place.length - ((net segs).ups - below.length) = place.length := by omega
    rw [level, drop_length]
    exact ⟨fun _ => nil_prefix, fun _ => kept.trans (prefix_append _ _)⟩
  · have level : (place ++ below).length - (net segs).ups =
        place.length - ((net segs).ups - below.length) := by
      rw [length_append]
      omega
    rw [level, take_append_of_le_length (by omega)]
    conv =>
      lhs
      lhs
      rw [← take_append_drop (place.length - ((net segs).ups - below.length)) place]
    exact prefix_append_right_inj _

/-- The names a walk ends with were there before or have been entered. -/
theorem mem_walk_map {β : Type} (f : β → Seg α) (items : List β) {name : α} :
    ∀ {place : List α}, name ∈ walk place (items.map f) →
      name ∈ place ∨ ∃ item ∈ items, f item = .down name := by
  induction items with
  | nil => exact fun member => Or.inl member
  | cons item items ih =>
    intro place member
    rcases ih member with kept | ⟨other, inside, enters⟩
    · cases seg : f item with
      | stay =>
        rw [seg] at kept
        exact Or.inl kept
      | up =>
        rw [seg] at kept
        exact Or.inl (dropLast_subset place kept)
      | down entered =>
        rw [seg] at kept
        rcases mem_append.mp kept with kept | kept
        · exact Or.inl kept
        · rw [mem_singleton.mp kept]
          exact Or.inr ⟨item, mem_cons_self, seg⟩
    · exact Or.inr ⟨other, mem_cons_of_mem _ inside, enters⟩

section Lag

variable {β : Type} {place ahead : List α}

theorem move_sublist (behind : place.Sublist ahead) (seg : Seg α) :
    (move place seg).Sublist (move ahead seg) := by
  cases seg with
  | stay => exact behind
  | up =>
    have reversed := behind.reverse.tail
    rw [tail_reverse, tail_reverse] at reversed
    exact reverse_sublist.mp reversed
  | down name => exact behind.append (Sublist.refl _)

theorem walk_eq_walk_iff (behind : place.Sublist ahead) (segs : List (Seg α)) :
    walk place segs = walk ahead segs ↔ (place ≠ ahead → ahead.length ≤ (net segs).ups) := by
  rw [walk_eq_net, walk_eq_net, Net.apply, Net.apply]
  constructor
  · intro same apart
    have shorter : place.length < ahead.length :=
      Nat.lt_of_le_of_ne behind.length_le fun even => apart (behind.eq_of_length even)
    have lengths := congrArg length same
    rw [length_append, length_append, length_take, length_take] at lengths
    omega
  · intro climbs
    by_cases same : place = ahead
    · rw [same]
    · have low := climbs same
      have lower : place.length ≤ (net segs).ups := Nat.le_trans behind.length_le low
      rw [Nat.sub_eq_zero_of_le low, Nat.sub_eq_zero_of_le lower, take_zero, take_zero]

/-- Two readings of the same items, one of which takes some names for a move that enters
nothing. They lead to the same place exactly when the other one climbs to the root behind
each of these names. -/
theorem walk_map_eq_iff {f g : β → Seg α}
    (lag : ∀ item, f item = g item ∨ (f item = .stay ∨ f item = .up) ∧ ∃ name, g item = .down name)
    (segs : List (Seg α)) (items : List β) : ∀ {place ahead : List α}, place.Sublist ahead →
    (walk place (items.map f ++ segs) = walk ahead (items.map g ++ segs) ↔
      (place ≠ ahead → ahead.length ≤ (net (items.map g ++ segs)).ups) ∧
        ∀ front item rest, items = front ++ item :: rest → f item ≠ g item →
          (walk ahead ((front ++ [item]).map g)).length ≤ (net (rest.map g ++ segs)).ups) := by
  induction items with
  | nil =>
    intro place ahead behind
    have none' : ∀ front (item : β) rest, ([] : List β) ≠ front ++ item :: rest := by simp
    rw [map_nil, map_nil, walk_eq_walk_iff behind]
    exact ⟨fun climbs => ⟨climbs, fun front item rest split => absurd split (none' _ _ _)⟩,
      fun both => both.1⟩
  | cons item items ih =>
    intro place ahead behind
    -- the split at the head, and the splits further on
    have splits : (∀ front other rest, item :: items = front ++ other :: rest →
        f other ≠ g other → (walk ahead ((front ++ [other]).map g)).length ≤
          (net (rest.map g ++ segs)).ups) ↔
        (f item ≠ g item → (move ahead (g item)).length ≤ (net (items.map g ++ segs)).ups) ∧
        ∀ front other rest, items = front ++ other :: rest → f other ≠ g other →
          (walk (move ahead (g item)) ((front ++ [other]).map g)).length ≤
            (net (rest.map g ++ segs)).ups := by
      constructor
      · intro all
        exact ⟨fun differ => all [] item items rfl differ, fun front other rest split differ =>
          all (item :: front) other rest (by simp [split]) differ⟩
      rintro ⟨head, further⟩ front other rest split differ
      cases front with
      | nil =>
        obtain ⟨rfl, rfl⟩ := cons.inj split
        exact head differ
      | cons first front =>
        obtain ⟨rfl, inner⟩ := cons.inj split
        exact further front other rest inner differ
    rw [splits, map_cons, cons_append, map_cons, cons_append, walk_cons, walk_cons]
    rcases lag item with same | ⟨lower, name, enters⟩
    · rw [same, ih (move_sublist behind (g item)),
        ← walk_eq_walk_iff (move_sublist behind (g item)), ← walk_eq_walk_iff behind, walk_cons,
        walk_cons]
      exact and_congr_right fun _ => ⟨fun all => ⟨fun differ => absurd rfl differ, all⟩,
        fun both => both.2⟩
    · have kept : (move place (f item)).Sublist ahead := by
        rcases lower with stay | up
        · exact stay ▸ behind
        · exact up ▸ (dropLast_sublist place).trans behind
      have differ : f item ≠ g item := by
        intro same
        rw [same, enters] at lower
        rcases lower with impossible | impossible <;> cases impossible
      have shorter : move place (f item) ≠ move ahead (g item) := by
        intro same
        have length := kept.length_le
        rw [same, enters, move, length_append, length_singleton] at length
        omega
      have longer : ahead.Sublist (move ahead (g item)) := by
        rw [enters]
        exact sublist_append_left _ _
      rw [ih (kept.trans longer)]
      constructor
      · rintro ⟨climbs, all⟩
        refine ⟨?_, fun _ => climbs shorter, all⟩
        rw [← walk_eq_walk_iff behind, walk_cons, walk_cons,
          walk_eq_walk_iff (move_sublist behind (g item))]
        exact fun _ => climbs shorter
      · rintro ⟨_, head, all⟩
        exact ⟨fun _ => head differ, all⟩

end Lag

end SegmentWalk
