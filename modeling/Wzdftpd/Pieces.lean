import Mathlib.Algebra.Order.BigOperators.Group.List
import Mathlib.Algebra.Order.Ring.Nat

/- A stream cut at separators into the non-empty pieces between them, and how
much of it is not separator. The symbols have an arbitrary type. -/
namespace Pieces

open List

variable {α : Type} (sep : α → Bool)

def pieces (stream : List α) : List (List α) :=
  (stream.splitOnP sep).filter fun piece => !piece.isEmpty

def load (stream : List α) : Nat := stream.countP fun a => !sep a

/-- A piece without separators, and the separators that end it. -/
structure Frame where
  body : List α
  close : List α
  free : ∀ a ∈ body, sep a = false
  closed : close ≠ []
  seps : ∀ a ∈ close, sep a = true

def Frame.text {sep : α → Bool} (frame : Frame sep) : List α := frame.body ++ frame.close

variable {sep}

variable {c : α} (stream : List α) (frame : Frame sep) (parts : List (List α)) (frames : List
  (Frame sep)) {x : List α}

theorem pieces_append_sep (hit : sep c = true) (x y : List α) :
    pieces sep (x ++ c :: y) = pieces sep x ++ pieces sep y := by
  simp [pieces, splitOnP_append_cons x y hit]

theorem pieces_free (free : ∀ a ∈ x, sep a = false) :
    pieces sep x = [x].filter fun piece => !piece.isEmpty := by
  rw [pieces, splitOnP_eq_singleton free]

theorem pieces_seps_append {t : List α} (seps : ∀ a ∈ t, sep a = true) (rest : List α) :
    pieces sep (t ++ rest) = pieces sep rest := by
  induction t with
  | nil => rfl
  | cons c t ih =>
    have first := pieces_append_sep (seps c mem_cons_self) [] (t ++ rest)
    rw [nil_append] at first
    rw [cons_append, first, ih (forall_mem_cons.mp seps).2]
    simp [pieces]

theorem pieces_frame (rest : List α) :
    pieces sep (frame.text ++ rest) =
      ([frame.body].filter fun piece => !piece.isEmpty) ++ pieces sep rest := by
  obtain ⟨c, _, same⟩ := exists_cons_of_ne_nil frame.closed
  have seps := frame.seps
  rw [same] at seps
  rw [Frame.text, same, append_assoc, cons_append, pieces_append_sep (seps c mem_cons_self),
    pieces_seps_append (forall_mem_cons.mp seps).2,
    pieces_free frame.free]

theorem pieces_frames :
    pieces sep (frames.flatMap Frame.text) =
      (frames.map Frame.body).filter fun piece => !piece.isEmpty := by
  induction frames with
  | nil => simp [pieces]
  | cons frame frames ih =>
    simp [pieces_frame, ih, ← filter_append]

theorem load_append (x y : List α) : load sep (x ++ y) = load sep x + load sep y :=
  countP_append

theorem load_free (free : ∀ a ∈ x, sep a = false) : load sep x = x.length := by
  rw [load, countP_eq_length]
  intro a member
  rw [free a member]
  rfl

theorem load_eq_zero : load sep x = 0 ↔ ∀ a ∈ x, sep a = true := by
  simp [load]

theorem load_frame : load sep frame.text = frame.body.length := by
  simp [Frame.text, load_append, load_free frame.free, load_eq_zero.mpr frame.seps]

theorem load_flatten : load sep parts.flatten = (parts.map (load sep)).sum := by
  rw [load, countP_flatten]
  rfl

theorem load_frames :
    load sep (frames.flatMap Frame.text) = ((frames.map Frame.body).map length).sum := by
  rw [flatMap_def, load_flatten, map_map, map_map]
  exact congrArg sum (map_congr_left fun frame _ => load_frame frame)

theorem sum_length_filter :
    ((parts.filter fun part => !part.isEmpty).map length).sum = (parts.map length).sum := by
  induction parts with
  | nil => rfl
  | cons part parts ih => cases part <;> simp [ih]

theorem free_takeWhile (sep : α → Bool) (stream : List α) :
    ∀ a ∈ stream.takeWhile (!sep ·), sep a = false := by
  intro a member
  have inside := all_eq_true.mp all_takeWhile a member
  rw [Bool.not_eq_true'] at inside
  exact inside

theorem pieces_eq :
    pieces sep stream = ([stream.takeWhile (!sep ·)].filter fun piece => !piece.isEmpty) ++
      pieces sep ((stream.dropWhile (!sep ·)).drop 1) := by
  have free := free_takeWhile sep stream
  have parts := takeWhile_append_dropWhile (p := (!sep ·)) (l := stream)
  cases behind : stream.dropWhile (!sep ·) with
  | nil =>
    rw [behind, append_nil] at parts
    rw [← pieces_free free, parts]
    simp [pieces]
  | cons c rest =>
    have hit : sep c = true := by
      have first := head?_dropWhile_not (!sep ·) stream
      rw [behind] at first
      simpa using first
    rw [behind] at parts
    nth_rewrite 1 [← parts]
    rw [pieces_append_sep hit, pieces_free free]
    rfl

theorem sum_length_pieces : ((pieces sep stream).map length).sum = load sep stream := by
  induction length : stream.length using Nat.strong_induction_on generalizing stream with
  | _ n ih =>
    have free := free_takeWhile sep stream
    have parts := takeWhile_append_dropWhile (p := (!sep ·)) (l := stream)
    have taken : ((([stream.takeWhile (!sep ·)].filter fun piece => !piece.isEmpty).map
        List.length).sum) = load sep (stream.takeWhile (!sep ·)) := by
      rw [sum_length_filter, load_free free]
      rfl
    rw [pieces_eq, map_append, sum_append, taken]
    cases behind : stream.dropWhile (!sep ·) with
    | nil =>
      rw [behind, append_nil] at parts
      rw [parts]
      rfl
    | cons c rest =>
      rw [behind] at parts
      have hit : sep c = true := by
        have first := head?_dropWhile_not (!sep ·) stream
        rw [behind] at first
        simpa using first
      have shorter : rest.length < n := by
        rw [← length, ← parts, length_append, length_cons]
        omega
      rw [drop_one, tail_cons, ih _ shorter _ rfl]
      nth_rewrite 2 [← parts]
      have separator : load sep [c] = 0 := load_eq_zero.mpr (by simpa using hit)
      rw [load_append, ← singleton_append, load_append, separator, Nat.zero_add]

theorem pieces_intercalate (hit : sep c = true) {words : List (List α)}
    (plain : ∀ word ∈ words, word ≠ [] ∧ ∀ a ∈ word, sep a = false) :
    pieces sep ([c].intercalate words) = words := by
  have single : ∀ {word : List α}, word ≠ [] → (∀ a ∈ word, sep a = false) →
      pieces sep word = [word] := by
    intro word some free
    rw [pieces_free free]
    simp [some]
  induction words with
  | nil => simp [pieces]
  | cons word words ih =>
    obtain ⟨some, free⟩ := plain word mem_cons_self
    cases words with
    | nil => rw [intercalate_singleton, single some free]
    | cons next words =>
      have later := ih (forall_mem_cons.mp plain).2
      simp [pieces_append_sep hit, single some free, later]

theorem load_intercalate (hit : sep c = true) {words : List (List α)}
    (free : ∀ word ∈ words, ∀ a ∈ word, sep a = false) :
    load sep ([c].intercalate words) = (words.map length).sum := by
  induction words with
  | nil => rfl
  | cons word words ih =>
    have here := load_free (free word mem_cons_self)
    cases words with
    | nil => simp [here]
    | cons next words =>
      have later := ih (forall_mem_cons.mp free).2
      have comma : load sep [c] = 0 := load_eq_zero.mpr (by simpa using hit)
      rw [intercalate_cons_cons, load_append, load_append, here, later, comma]
      rfl

theorem yield_eq_load (yield : List α → Nat) (bounded : ∀ part, yield part ≤ load sep part)
    (parts : List (List α)) (total : (parts.map yield).sum = load sep parts.flatten) :
    ∀ part ∈ parts, yield part = load sep part := by
  rw [load_flatten] at total
  induction parts with
  | nil => simp
  | cons part parts ih =>
    have rest : (parts.map yield).sum ≤ (parts.map (load sep)).sum :=
      sum_le_sum fun other _ => bounded other
    have here := bounded part
    simp only [map_cons, sum_cons] at total
    intro other member
    rcases mem_cons.mp member with rfl | member
    · omega
    · exact ih (by omega) other member

end Pieces
