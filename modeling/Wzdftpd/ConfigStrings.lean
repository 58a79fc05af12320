import Wzdftpd.ConfigMap
import Wzdftpd.Replies
import Wzdftpd.Utf8

/- Lists of strings in a configuration (wzd_configfile.c): one value, with a separator
between the strings. -/
namespace Wzdftpd

open List

/-- VALUE_LIST_SEPARATOR -/
def valueListSeparator : Text := [',']

/-- `str_erase`: what does not lie in the string is not erased. -/
def strErase (str : Text) (pos len : Nat) : Text :=
  if str.length < pos + len then str else str.take pos ++ str.drop (pos + len)

/-- The bytes of a text, for `utf8_valid`. -/
def textBytes (text : Text) : List (BitVec 8) := text.map fun c => BitVec.ofNat 8 c.toNat

inductive StringListError where
  | notFound
  | invalidEncoding
  deriving Repr, DecidableEq

namespace ConfigTree

/-- `config_set_string_list`. Without a string there is no buffer, which
`config_set_value` refuses. -/
def setStringList (config : ConfigTree) (groupname key : Text) (value : List Text)
    (length : Nat) : CfCode × ConfigTree :=
  let str := (value.take length).foldl (fun str s => str ++ (s ++ valueListSeparator)) []
  if value.take length = [] then (.invalidArgs, config)
  else
    config.setValue groupname key
      (strErase str (str.length - valueListSeparator.length) valueListSeparator.length)

/-- `config_get_string_list` -/
def getStringList (config : ConfigTree) (groupname key : Text) :
    Except StringListError (List Text) :=
  match config.getValue groupname key with
  | none => .error .notFound
  | some value =>
    if utf8Valid (textBytes value) then
      .ok ((strSplit value valueListSeparator 0).map trimmedLeft)
    else .error .invalidEncoding

theorem getValue_setValue (config : ConfigTree) (groupname key value : Text) :
    (config.setValue groupname key value).1 = .ok ∧
      (config.setValue groupname key value).2.getValue groupname key = some value := by
  obtain ⟨group, found⟩ :
      ∃ group, (config.withGroup groupname).lookupGroup groupname = some group := by
    by_cases absent : config.lookupGroup groupname = none
    · simp [withGroup, absent, lookupGroup_addGroup absent]
    · simpa [withGroup, absent] using Option.ne_none_iff_exists'.mp absent
  simp only [setValue, found]
  by_cases absent : lookupKeyvalue group.values key = none
  · simp [absent, addKey, getValue_eq, ConfigMap.get, toMap_putValues found, keysOf_append]
  · simp [absent, getValue_eq, ConfigMap.get, toMap_putValues found, keysOf_replaceValue]

end ConfigTree

theorem utf8Valid_joined {values : List Text}
    (valid : ∀ value ∈ values, utf8Valid (textBytes value) = true) :
    utf8Valid (textBytes (valueListSeparator.intercalate values)) = true := by
  induction values with
  | nil => rfl
  | cons value values ih =>
    obtain ⟨first, others⟩ := forall_mem_cons.mp valid
    cases values with
    | nil => simpa using first
    | cons next values =>
      rw [intercalate_cons_cons, textBytes, map_append, map_append, append_assoc]
      exact utf8Valid_append first (ih others)

theorem strstr_separator {value : Text} (absent : ',' ∉ value) (rest : Text) :
    strstr valueListSeparator (value ++ ',' :: rest) = some (value, rest) ∧
      strstr valueListSeparator value = none := by
  unfold valueListSeparator
  induction value with
  | nil => simp [strstr]
  | cons c value ih =>
    obtain ⟨other, later⟩ := not_or.mp (mem_cons.not.mp absent)
    obtain ⟨there, missing⟩ := ih later
    simp [strstr, other, there, missing]

theorem strSplitLoop_joined {values : List Text} {turns : Nat}
    (enough : (valueListSeparator.intercalate values).length ≤ turns)
    (plain : ∀ value ∈ values, value ≠ [] ∧ ',' ∉ value) :
    strSplitLoop valueListSeparator turns (valueListSeparator.intercalate values) = values := by
  induction values generalizing turns with
  | nil => cases turns <;> rfl
  | cons value values ih =>
    obtain ⟨⟨named, absent⟩, others⟩ := forall_mem_cons.mp plain
    cases values with
    | nil =>
      cases turns <;> simp [strSplitLoop, (strstr_separator absent []).2, named]
    | cons next values =>
      have shape : valueListSeparator.intercalate (value :: next :: values) =
          value ++ ',' :: valueListSeparator.intercalate (next :: values) := by
        rfl
      rw [shape, length_append, length_cons] at enough
      obtain ⟨turns, rfl⟩ := Nat.exists_eq_add_of_le' (show 1 ≤ turns by omega)
      rw [shape, strSplitLoop, (strstr_separator absent _).1]
      exact congrArg (value :: ·) (ih (by omega) others)

theorem foldl_joined (values : List Text) (some_value : values ≠ []) : ∀ str : Text,
    values.foldl (fun str s => str ++ (s ++ valueListSeparator)) str =
      str ++ (valueListSeparator.intercalate values ++ valueListSeparator) := by
  induction values with
  | nil => cases some_value rfl
  | cons value values ih =>
    intro str
    cases values with
    | nil => simp
    | cons next values =>
      rw [foldl_cons, ih (cons_ne_nil _ _)]
      simp

/-- A list of strings is read back as it was set. -/
theorem setStringList_round_trip (config : ConfigTree) (groupname key : Text)
    (values : List Text) (length : Nat) (some_value : values ≠ []) (whole : values.length ≤ length)
    (plain : ∀ value ∈ values, value ≠ [] ∧ utf8Valid (textBytes value) = true ∧ ',' ∉ value ∧
      ∀ c, value.head? = some c → CNumber.isSpace c = false) :
    (config.setStringList groupname key values length).1 = .ok ∧
      (config.setStringList groupname key values length).2.getStringList groupname key =
        .ok values := by
  have trimmed : values.map trimmedLeft = values := by
    apply (map_inj_left.mpr fun value member => ?_).trans (map_id values)
    cases value with
    | nil => rfl
    | cons c rest => simp [trimmedLeft, (plain _ member).2.2.2 c rfl]
  have split := strSplitLoop_joined (Nat.le_refl _) fun value member =>
    ⟨(plain value member).1, (plain value member).2.2.1⟩
  have erased : ∀ str : Text, strErase (str ++ valueListSeparator)
      ((str ++ valueListSeparator).length - valueListSeparator.length)
      valueListSeparator.length = str := by
    simp [strErase]
  have stored := config.getValue_setValue groupname key (valueListSeparator.intercalate values)
  simp only [ConfigTree.setStringList, take_of_length_le whole, some_value, if_false,
    foldl_joined values some_value, nil_append, erased, ConfigTree.getStringList, stored.2,
    utf8Valid_joined fun value member => (plain value member).2.1, if_true]
  rw [strSplit, if_pos Nat.one_pos, split, trimmed]
  exact ⟨stored.1, rfl⟩

theorem setStringList_round_trip_two :
    (ConfigTree.new.setStringList ['g'] ['k'] ["a".toList, "b c".toList] 2).2.getStringList
      ['g'] ['k'] = .ok ["a".toList, "b c".toList] :=
  (setStringList_round_trip ConfigTree.new ['g'] ['k'] ["a".toList, "b c".toList] 2
    (by decide) (by decide) (by simp; decide)).2

end Wzdftpd
