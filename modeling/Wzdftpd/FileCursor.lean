import Mathlib.Data.List.Basic

/- An open file: its content and the offset of the next access. What is written behind
the end leaves a gap in front of it that reads as `zero`. Elements have an arbitrary
type. -/

structure FileCursor (α : Type) where
  content : List α
  position : Nat
  deriving DecidableEq

namespace FileCursor

open List

variable {α : Type}

def seek (file : FileCursor α) (offset : Nat) : FileCursor α := { file with position := offset }

def seekEnd (file : FileCursor α) : FileCursor α := file.seek file.content.length

def rest (file : FileCursor α) : List α := file.content.drop file.position

/-- What a read of at most `count` elements delivers. -/
def next (file : FileCursor α) (count : Nat) : List α := file.rest.take count

def read (file : FileCursor α) (count : Nat) : FileCursor α :=
  file.seek (file.position + (file.next count).length)

/-- Everything in front of the offset, a gap filled. -/
def front (zero : α) (file : FileCursor α) : List α :=
  file.content.take file.position ++ replicate (file.position - file.content.length) zero

/-- A write at the offset. An empty one does not fill a gap. -/
def write (zero : α) (file : FileCursor α) (data : List α) : FileCursor α :=
  if data = [] then file
  else ⟨file.front zero ++ data ++ file.content.drop (file.position + data.length),
    file.position + data.length⟩

def truncate (zero : α) (file : FileCursor α) : FileCursor α := ⟨file.front zero, file.position⟩

variable (file : FileCursor α)

theorem next_append_rest (count : Nat) : file.next count ++ (file.read count).rest = file.rest := by
  have left : (file.read count).rest = file.rest.drop (file.next count).length := by
    simp [rest, read, seek]
  rw [left, next, length_take]
  rcases Nat.le_total count file.rest.length with short | long
  · rw [Nat.min_eq_left short, take_append_drop]
  · rw [Nat.min_eq_right long, drop_length, append_nil, take_of_length_le long]

theorem rest_read_of_short {count : Nat}
    (short : (file.next count).length < count) : (file.read count).rest = [] := by
  have parts := congrArg length (file.next_append_rest count)
  rw [next, length_take] at short
  rw [length_append, next, length_take] at parts
  exact length_eq_zero_iff.mp (by omega)

theorem next_eq_nil_iff (count : Nat) :
    file.next count = [] ↔ count = 0 ∨ file.rest = [] := take_eq_nil_iff

theorem read_of_next_nil {file : FileCursor α} {count : Nat} (nothing : file.next count = []) :
    file.read count = file := by
  rw [read, nothing]
  rfl

@[simp] theorem front_length (zero : α) (file : FileCursor α) :
    (file.front zero).length = file.position := by
  simp only [front, length_append, length_take, length_replicate]
  omega

theorem front_of_le (zero : α) (file : FileCursor α)
    (inside : file.position ≤ file.content.length) :
    file.front zero = file.content.take file.position := by
  rw [front, Nat.sub_eq_zero_of_le inside, replicate_zero, append_nil]

@[simp] theorem write_position (zero : α) (file : FileCursor α) (data : List α) :
    (file.write zero data).position = file.position + data.length := by
  unfold write
  split
  · rename_i empty
    simp [empty]
  · rfl

theorem write_front (zero : α) (file : FileCursor α) (data : List α) :
    (file.write zero data).front zero = file.front zero ++ data := by
  by_cases empty : data = []
  · simp [write, empty]
  have size : (file.front zero ++ data).length = file.position + data.length := by
    simp [front_length]
  rw [write, if_neg empty, front_of_le]
  · rw [← size]
    exact take_left
  · simp only [length_append, front_length]
    omega

theorem write_write (zero : α) (file : FileCursor α) (first second : List α) :
    (file.write zero first).write zero second = file.write zero (first ++ second) := by
  by_cases none : second = []
  · rw [none, append_nil]
    exact if_pos rfl
  by_cases empty : first = []
  · rw [empty]
    exact congrArg (fun file => write zero file second) (if_pos rfl)
  have both : first ++ second ≠ [] := fun nil => none (append_eq_nil_iff.mp nil).2
  have old : ((file.write zero first).content.drop
      ((file.write zero first).position + second.length)) =
      file.content.drop (file.position + (first ++ second).length) := by
    have size : (file.front zero ++ first).length = file.position + first.length := by
      simp [front_length]
    rw [write_position, write, if_neg empty, ← size, drop_length_add_append, drop_drop,
      size, length_append, Nat.add_assoc]
  rw [write, if_neg none, write_front, old, write_position]
  rw [write, if_neg both, Nat.add_assoc]
  simp

theorem write_at_start (zero : α) (content data : List α) :
    ((⟨content, 0⟩ : FileCursor α).write zero data).content = data ++ content.drop data.length := by
  unfold write
  split
  · rename_i empty
    rw [empty]
    rfl
  · simp [front]

end FileCursor
