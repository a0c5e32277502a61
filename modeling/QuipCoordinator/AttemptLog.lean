import QuipCoordinator.AttemptRecords
import QuipCoordinator.FoundationHex

/-!
# The file of a trail

The writer appends one line a record: the object of the record as compact JSON, then a
newline. Control characters are escaped, so a record is one line whatever its texts
hold, and a reader that reads each line back finds the records in their order.
-/

namespace QuipCoordinator
open Json Dashboard

/-! ## Compact JSON -/

def hexEscape (n : Nat) : List Char :=
  ['\\', 'u', '0', '0', Hex.digitChar (n / 16), Hex.digitChar (n % 16)]

def escape (c : Char) : List Char :=
  if c = '"' then ['\\', '"']
  else if c = '\\' then ['\\', '\\']
  else if c.toNat = 8 then ['\\', 'b']
  else if c.toNat = 9 then ['\\', 't']
  else if c.toNat = 10 then ['\\', 'n']
  else if c.toNat = 12 then ['\\', 'f']
  else if c.toNat = 13 then ['\\', 'r']
  else if c.toNat < 32 then hexEscape c.toNat
  else [c]

def renderString (s : String) : List Char := '"' :: (s.toList.flatMap escape ++ ['"'])

def renderInt (i : Int) : List Char :=
  if 0 ≤ i then Nat.toDigits 10 i.toNat else '-' :: Nat.toDigits 10 i.natAbs

-- the fields of a record are no arrays, objects or floats
def renderField : Value → List Char
  | .bool true => ['t', 'r', 'u', 'e']
  | .bool false => ['f', 'a', 'l', 's', 'e']
  | .string s => renderString s
  | .number n => renderInt (n.toInt.getD 0)
  | _ => ['n', 'u', 'l', 'l']

def renderFields : Map → List Char
  | [] => []
  | [(k, v)] => renderString k ++ ':' :: renderField v
  | (k, v) :: fields => renderString k ++ ':' :: (renderField v ++ ',' :: renderFields fields)

namespace AttemptRecord

def line (r : AttemptRecord) : List Char := '{' :: (renderFields r.toObject ++ ['}'])

end AttemptRecord

def appendRecord (text : List Char) (r : AttemptRecord) : List Char := text ++ (r.line ++ ['\n'])

def written (recs : List AttemptRecord) : String := String.ofList (recs.foldl appendRecord [])

/-! ## One line a record -/

theorem digitChar_ne_newline {n : Nat} (h : n < 16) : Hex.digitChar n ≠ '\n' := by
  interval_cases n <;> decide

theorem newline_notMem_escape (c : Char) : '\n' ∉ escape c := by
  unfold escape
  split_ifs with h₁ h₂ h₃ h₄ h₅ h₆ h₇ h₈
  any_goals decide
  · have hhigh := digitChar_ne_newline (show c.toNat / 16 < 16 by omega)
    have hlow := digitChar_ne_newline (show c.toNat % 16 < 16 by omega)
    simp [hexEscape, hhigh.symm, hlow.symm]
  · intro hmem
    rw [← List.mem_singleton.mp hmem] at h₅
    exact h₅ rfl

theorem newline_notMem_renderString (s : String) : '\n' ∉ renderString s := by
  simp [renderString, newline_notMem_escape]

theorem newline_notMem_toDigits (n : Nat) : '\n' ∉ Nat.toDigits 10 n := by
  intro h
  exact absurd (Nat.isDigit_of_mem_toDigits (by omega) (by omega) h) (by decide)

theorem newline_notMem_renderInt (i : Int) : '\n' ∉ renderInt i := by
  unfold renderInt
  split_ifs
  · exact newline_notMem_toDigits _
  · simp [newline_notMem_toDigits]

theorem newline_notMem_renderField (v : Value) : '\n' ∉ renderField v := by
  cases v with
  | bool b => cases b <;> decide
  | string s => exact newline_notMem_renderString s
  | number n => exact newline_notMem_renderInt _
  | null | array items | object fields =>
    exact (by decide : '\n' ∉ ['n', 'u', 'l', 'l'])

theorem newline_notMem_renderFields (fields : Map) : '\n' ∉ renderFields fields := by
  induction fields using renderFields.induct with
  | case1 => simp [renderFields]
  | case2 k v => simp [renderFields, newline_notMem_renderString, newline_notMem_renderField]
  | case3 k v fields hne ih =>
    rw [renderFields]
    · simp [newline_notMem_renderString, newline_notMem_renderField, ih]
    · exact hne

namespace AttemptRecord
variable (r : AttemptRecord)

theorem newline_notMem_line : '\n' ∉ r.line := by
  simp [line, newline_notMem_renderFields]

theorem getLast?_line : r.line.getLast? = some '}' := by
  rw [line, ← List.cons_append, List.getLast?_concat]

theorem trim_line : ListSource.trim r.line = r.line := by
  have hfront : r.line.dropWhile ListSource.isWhitespace = r.line :=
    List.dropWhile_cons_of_neg (by decide)
  have hback : r.line.reverse = '}' :: (renderFields r.toObject).reverse ++ ['{'] := by
    simp [line]
  rw [ListSource.trim, hfront, hback, List.cons_append, List.dropWhile_cons_of_neg (by decide),
    ← List.cons_append, ← hback, List.reverse_reverse]

end AttemptRecord

theorem foldl_appendRecord (recs : List AttemptRecord) (text : List Char) :
    recs.foldl appendRecord text = text ++ recs.flatMap fun r => r.line ++ ['\n'] := by
  induction recs generalizing text with
  | nil => simp
  | cons r recs ih => simp [ih, appendRecord]

theorem recordsOf_written {fromStr : String → Option Value} {recs : List AttemptRecord}
    (h : ∀ r ∈ recs, fromStr (String.ofList r.line) = some (.object r.toObject)) :
    recordsOf fromStr (written recs) = recs.map AttemptRecord.toObject := by
  rw [written, foldl_appendRecord, List.nil_append]
  induction recs with
  | nil => rfl
  | cons r recs ih =>
    obtain ⟨hr, hrest⟩ := List.forall_mem_cons.mp h
    have hcr : r.line.getLast? ≠ some '\r' := by
      rw [r.getLast?_line]
      decide
    have hblank : r.line.isEmpty = false := rfl
    rw [List.flatMap_cons, List.append_assoc, List.singleton_append, recordsOf,
      Text.lines_cons r.newline_notMem_line hcr, List.filterMap_cons]
    simp only [String.toList_ofList, r.trim_line, hblank, Bool.false_eq_true, if_false, hr]
    exact congrArg (r.toObject :: ·) (ih hrest)

end QuipCoordinator
