import Wzdftpd.DirectiveText
import Wzdftpd.FileCursor
import Wzdftpd.Session

/- `wzd_cache_gets` (wzd_cache.c) of a file that is not in the cache: blocks are read ahead,
and the file is put back behind the line. -/
namespace Wzdftpd

open DirectiveText List Nat

/-- The loop, with the size behind `--size`, `size_to_read`, and the `ret` characters in the
buffer. -/
def getsLoop : Nat → Nat → Text → Text → FileCursor Char → Text
  | 0, _, _, dst, _ => dst
  | _ + 1, _, [], dst, _ => dst
  | size + 1, sizeToRead, c :: pending, dst, file =>
    if c = '\n' then dst ++ [c]
    else if sizeToRead = 1 then
      let count := min (size + 1) 4096
      getsLoop size count (file.next count) (dst ++ [c]) (file.read count)
    else getsLoop size (sizeToRead - 1) pending (dst ++ [c]) file

/-- `wzd_cache_gets`, where `none` is a null pointer. -/
def wzdCacheGets (size : Nat) (file : FileCursor Char) : Option (Text × FileCursor Char) :=
  let count := min size 4096
  if file.next count = [] then none
  else
    let dst := getsLoop (size - 1) count (file.next count) [] (file.read count)
    some (dst, file.seek (file.position + dst.length))

/-- The calls until the first null pointer, if there are no more of them. -/
def getsAll (size : Nat) : Nat → FileCursor Char → Option (List Text)
  | 0, _ => none
  | calls + 1, file =>
    match wzdCacheGets size file with
    | none => some []
    | some (piece, file) => (getsAll size calls file).map (piece :: ·)

theorem getsLoop_eq (size : Nat) : ∀ {sizeToRead : Nat} {pending : Text} (dst : Text)
    {file : FileCursor Char}, 0 < sizeToRead → pending.length ≤ sizeToRead →
    (pending.length < sizeToRead → file.rest = []) →
    getsLoop size sizeToRead pending dst file = dst ++ (fgets size (pending ++ file.rest)).1 := by
  induction size with
  | zero =>
    intro sizeToRead pending dst file _ _ _
    simp [getsLoop, fgets]
  | succ size ih =>
    intro sizeToRead pending dst file positive fits ended
    cases pending with
    | nil => rw [getsLoop, ended positive, nil_append, fgets, append_nil]
    | cons c pending =>
      rw [getsLoop, cons_append, fgets]
      split
      · rename_i newline
        rw [newline]
      rw [length_cons] at fits ended
      refine Eq.trans ?_ (append_cons dst c (fgets size (pending ++ file.rest)).1).symm
      split
      · -- the block is used up, and the next one is read
        have nothing : pending = [] := length_eq_zero_iff.mp (by omega)
        have block : (file.next (min (size + 1) 4096)).length ≤ min (size + 1) 4096 :=
          length_take_le _ _
        simp [ih _ (by omega) block file.rest_read_of_short, file.next_append_rest, nothing]
      · exact ih _ (by omega) (by omega) fun less => ended (by omega)

/-- `wzd_cache_gets` reads what `fgets` reads. -/
theorem wzdCacheGets_eq {size : Nat} (room : 2 ≤ size) {file : FileCursor Char}
    (more : file.rest ≠ []) : ∃ next, wzdCacheGets size file =
      some ((fgets (size - 1) file.rest).1, next) ∧ next.rest = (fgets (size - 1) file.rest).2 := by
  have filled : ¬file.next (min size 4096) = [] := by
    rw [file.next_eq_nil_iff, not_or]
    exact ⟨by omega, more⟩
  have read := getsLoop_eq (size - 1) [] (by omega : 0 < min size 4096)
    (length_take_le (min size 4096) file.rest) file.rest_read_of_short
  rw [nil_append, show file.rest.take (min size 4096) = file.next (min size 4096) from rfl,
    file.next_append_rest] at read
  refine ⟨file.seek (file.position + (fgets (size - 1) file.rest).1.length), ?_, ?_⟩
  · simp only [wzdCacheGets, if_neg filled, read]
  · have left : (file.rest).drop (fgets (size - 1) file.rest).1.length =
        (fgets (size - 1) file.rest).2 :=
      (congrArg (drop _) (fgets_append (size - 1) file.rest).symm).trans drop_left
    rw [← left, FileCursor.rest, FileCursor.rest, FileCursor.seek, drop_drop]

theorem wzdCacheGets_end (size : Nat) {file : FileCursor Char} (ended : file.rest = []) :
    wzdCacheGets size file = none :=
  if_pos ((file.next_eq_nil_iff _).mpr (.inr ended))

theorem getsAll_pieces {size : Nat} (room : 2 ≤ size) (bound : Nat) :
    ∀ (file : FileCursor Char), file.rest.length ≤ bound →
    ∃ pieces, (∀ calls > bound, getsAll size calls file = some pieces) ∧
      pieces.flatten = file.rest ∧
      (∀ piece ∈ pieces, piece.length ≤ size - 1 ∧ '\n' ∉ piece.dropLast) ∧
      ∀ piece ∈ pieces.dropLast, piece.getLast? = some '\n' ∨ piece.length = size - 1 := by
  have ended : ∀ {bound : Nat} {file : FileCursor Char}, file.rest = [] → ∀ calls > bound,
      getsAll size calls file = some [] := by
    intro bound file nothing calls enough
    obtain ⟨calls, rfl⟩ := exists_eq_succ_of_ne_zero (Nat.ne_of_gt (zero_lt_of_lt enough))
    rw [getsAll, wzdCacheGets_end size nothing]
  induction bound with
  | zero =>
    intro file short
    have nothing := length_eq_zero_iff.mp (le_zero.mp short)
    exact ⟨[], ended nothing, nothing.symm, forall_mem_nil _, forall_mem_nil _⟩
  | succ bound ih =>
    intro file short
    by_cases nothing : file.rest = []
    · exact ⟨[], ended nothing, nothing.symm, forall_mem_nil _, forall_mem_nil _⟩
    obtain ⟨next, read, left⟩ := wzdCacheGets_eq room nothing
    have less := length_fgets (by omega : 0 < size - 1) nothing
    obtain ⟨pieces, all, whole, small, full⟩ := ih next (by rw [left]; omega)
    obtain ⟨fits, stops⟩ := fgets_stops (size - 1) file.rest
    refine ⟨(fgets (size - 1) file.rest).1 :: pieces, fun calls enough => ?_, ?_,
      forall_mem_cons.mpr ⟨⟨fits, newline_not_mem_dropLast_fgets _ _⟩, small⟩, ?_⟩
    · obtain ⟨calls, rfl⟩ :=
        exists_eq_succ_of_ne_zero (Nat.ne_of_gt (zero_lt_of_lt enough))
      rw [getsAll, read]
      simp [all calls (lt_of_succ_lt_succ enough)]
    · simp [whole, left, fgets_append]
    · cases pieces with
      | nil => exact forall_mem_nil _
      | cons piece pieces =>
        refine forall_mem_cons.mpr ⟨stops.resolve_left fun nothing => ?_, full⟩
        -- there is no piece of nothing
        have nothingRead := ended (left.trans nothing) (bound + 1) (lt_succ_self bound)
        cases nothingRead.symm.trans (all (bound + 1) (lt_succ_self bound))

/-- Reading a file line by line: the calls come to an end, and the lines are the file. -/
theorem wzdCacheGets_lossless (content : Text) (size : Nat) (room : 2 ≤ size) :
    ∃ pieces, (∀ calls > content.length, getsAll size calls ⟨content, 0⟩ = some pieces) ∧
      pieces.flatten = content ∧
      (∀ piece ∈ pieces, piece.length ≤ size - 1 ∧ '\n' ∉ piece.dropLast) ∧
      ∀ piece ∈ pieces.dropLast, piece.getLast? = some '\n' ∨ piece.length = size - 1 :=
  getsAll_pieces room content.length ⟨content, 0⟩ le_rfl

theorem wzdCacheGets_lossless_three :
    getsAll 3 8 ⟨"a\nbcde".toList, 0⟩ =
        some ["a\n".toList, "bc".toList, "de".toList] ∧
      ["a\n".toList, "bc".toList, "de".toList].flatten = "a\nbcde".toList := by
  obtain ⟨_, all, whole, _⟩ := wzdCacheGets_lossless "a\nbcde".toList 3 (by decide)
  have read : getsAll 3 8 ⟨"a\nbcde".toList, 0⟩ =
      some ["a\n".toList, "bc".toList, "de".toList] := by decide
  cases (all 8 (by decide)).symm.trans read
  exact ⟨read, whole⟩

end Wzdftpd
