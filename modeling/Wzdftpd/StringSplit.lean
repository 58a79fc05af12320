import Wzdftpd.Replies

/- `str_split` of wzd_string.c: the pieces of a text, and the array that holds them. -/
namespace Wzdftpd

open List

theorem strstr_spec {sep : Text} (nonempty : sep ≠ []) (text : Text) :
    (strstr sep text = none → ¬sep <:+: text) ∧
      ∀ front back, strstr sep text = some (front, back) →
        text = front ++ (sep ++ back) ∧ ¬sep <:+: front := by
  induction text with
  | nil => simp [strstr, nonempty]
  | cons c text ih =>
    by_cases here : sep <+: c :: text
    · obtain ⟨_, same⟩ := here
      simp [strstr, ← same, nonempty]
    simp only [strstr, isPrefixOf_iff_prefix, here, if_false, Option.map_eq_none_iff,
      Option.map_eq_some_iff]
    refine ⟨fun absent inside => ?_, ?_⟩
    · exact (infix_cons_iff.mp inside).elim here (ih.1 absent)
    · rintro front back ⟨⟨first, second⟩, found, same⟩
      obtain ⟨parts, absent⟩ := ih.2 first second found
      cases same
      refine ⟨by simp [parts], fun inside => (infix_cons_iff.mp inside).elim ?_ absent⟩
      exact fun start => here (parts ▸ start.trans (by simp))

/-- What `str_split` makes of a text when it may split off `turns` tokens. -/
structure SplitInto (sep : Text) (turns : Nat) (text : Text) (pieces : List Text) : Prop where
  empty : pieces = [] → text = []
  few : pieces.length ≤ turns + 1
  short : pieces.length ≤ text.length
  joined : sep.intercalate pieces = text ∨ sep.intercalate pieces ++ sep = text
  early : ∀ piece ∈ pieces.dropLast, ¬sep <:+: piece
  plain : pieces.length ≤ turns → ∀ piece ∈ pieces, ¬sep <:+: piece

theorem SplitInto.last {sep text : Text} {turns : Nat}
    (plain : turns = 0 ∨ ¬sep <:+: text) :
    SplitInto sep turns text (if text = [] then [] else [text]) := by
  by_cases empty : text = []
  · rw [if_pos empty, empty]
    exact ⟨fun _ => rfl, Nat.zero_le _, Nat.zero_le _, .inl rfl, forall_mem_nil _,
      fun _ => forall_mem_nil _⟩
  · have long := length_pos_of_ne_nil empty
    rw [if_neg empty]
    refine ⟨fun same => ?_, ?_, long, .inl intercalate_singleton, forall_mem_nil _,
      fun room => ?_⟩
    · cases same
    · exact Nat.le_add_left 1 turns
    · exact forall_mem_singleton.mpr (plain.resolve_left (by rw [length_singleton] at room; omega))

theorem SplitInto.token {sep token rest : Text} {turns : Nat} {pieces : List Text}
    (nonempty : sep ≠ []) (absent : ¬sep <:+: token) (behind : SplitInto sep turns rest pieces) :
    SplitInto sep (turns + 1) (token ++ (sep ++ rest)) (token :: pieces) := by
  have long := length_pos_of_ne_nil nonempty
  have few := behind.few
  have short := behind.short
  cases pieces with
  | nil =>
    rw [behind.empty rfl, append_nil]
    refine ⟨fun same => ?_, Nat.le_add_left 1 _, ?_, .inr ?_, forall_mem_nil _, fun _ => ?_⟩
    · cases same
    · rw [length_singleton, length_append]
      omega
    · rw [intercalate_singleton]
    · exact forall_mem_singleton.mpr absent
  | cons piece pieces =>
    refine ⟨by simp, by simpa using few, by simp at short ⊢; omega, ?_, ?_, ?_⟩
    · exact behind.joined.imp (by simp +contextual) (by simp +contextual)
    · simpa [absent] using behind.early
    · intro room
      exact forall_mem_cons.mpr ⟨absent, behind.plain (by simpa using room)⟩

theorem strSplitLoop_splits {sep : Text} (nonempty : sep ≠ []) (turns : Nat) : ∀ text : Text,
    SplitInto sep turns text (strSplitLoop sep turns text) := by
  induction turns with
  | zero => exact fun text => .last (.inl rfl)
  | succ turns ih =>
    intro text
    have first := strstr_spec nonempty text
    rw [strSplitLoop]
    cases found : strstr sep text with
    | none => exact .last (.inr (first.1 found))
    | some parts =>
      obtain ⟨rfl, absent⟩ := first.2 parts.1 parts.2 found
      exact .token nonempty absent (ih parts.2)

/-- The array of `str_split`, whose cells hold anything before the tokens are stored. -/
def storeTokens (tokens : List Text) (cells : List (Option Text)) : List (Option Text) :=
  let filled := tokens.foldl (fun now token => (now.1.set now.2 (some token), now.2 + 1)) (cells, 0)
  filled.1.set filled.2 none

theorem foldl_storeTokens (tokens : List Text) : ∀ (front cells : List (Option Text)),
    tokens.length ≤ cells.length →
    tokens.foldl (fun now token => (now.1.set now.2 (some token), now.2 + 1))
      (front ++ cells, front.length) =
      (front ++ (tokens.map some ++ cells.drop tokens.length), front.length + tokens.length) := by
  induction tokens with
  | nil => simp
  | cons token tokens ih =>
    intro front cells room
    cases cells with
    | nil => cases room
    | cons cell cells =>
      have next := ih (front ++ [some token]) cells (by simpa using room)
      simp at next ⊢
      rw [next]
      simp; omega

/-- The pieces of a text, joined by the separator, are the text, but for a separator at
its end. -/
theorem strSplit_invertible (str sep : Text) (limit : Int) (cells : List (Option Text))
    (nonempty : sep ≠ []) (room : cells.length = (strSplit str sep limit.toNat).length + 1) :
    (1 ≤ limit → (strSplit str sep limit.toNat).length ≤ limit) ∧
      (sep.intercalate (strSplit str sep limit.toNat) = str ∨
        sep.intercalate (strSplit str sep limit.toNat) ++ sep = str) ∧
      (∀ piece ∈ (strSplit str sep limit.toNat).dropLast, ¬sep <:+: piece) ∧
      ((strSplit str sep limit.toNat).length ≠ limit →
        ∀ piece ∈ strSplit str sep limit.toNat, ¬sep <:+: piece) ∧
      storeTokens (strSplit str sep limit.toNat) cells =
        (strSplit str sep limit.toNat).map some ++ [none] := by
  have split := strSplitLoop_splits nonempty
    (if limit.toNat < 1 then str.length else limit.toNat - 1) str
  rw [← strSplit] at split
  have few := split.few
  have short := split.short
  refine ⟨fun positive => ?_, split.joined, split.early, fun other => split.plain ?_, ?_⟩
  · split at few <;> omega
  · by_cases unlimited : limit.toNat < 1 <;> simp only [unlimited, if_true, if_false] at few ⊢ <;>
      omega
  obtain ⟨last, same⟩ : ∃ last, cells.drop (strSplit str sep limit.toNat).length = [last] :=
    length_eq_one_iff.mp (by simp [room])
  have filled := foldl_storeTokens (strSplit str sep limit.toNat) [] cells (by omega)
  rw [same] at filled
  simp only [nil_append, length_nil] at filled
  simp [storeTokens, filled]

theorem strSplit_invertible_limit :
    ([','].intercalate (strSplit "a,b,c".toList [','] 2) = "a,b,c".toList ∨
      [','].intercalate (strSplit "a,b,c".toList [','] 2) ++ [','] = "a,b,c".toList) :=
  (strSplit_invertible "a,b,c".toList [','] 2 [none, none, none] (by decide) rfl).2.1

end Wzdftpd
