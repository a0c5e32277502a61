import Mathlib.Data.List.Basic

/-!
# The lines of a text

A line ends with a newline, or a carriage return and a newline; the last line may do
without.
-/

namespace Text

def lines (s : String) : List String :=
  let pieces := s.toList.splitOnP (· == '\n')
  let ended := pieces.dropLast.map fun l => if l.getLast? = some '\r' then l.dropLast else l
  let last := pieces.getLast?.getD []
  (if last.isEmpty then ended else ended ++ [last]).map String.ofList

theorem lines_cons {l rest : List Char} (hl : '\n' ∉ l) (hcr : l.getLast? ≠ some '\r') :
    lines (String.ofList (l ++ '\n' :: rest)) = String.ofList l :: lines (String.ofList rest) := by
  have hsplit : (l ++ '\n' :: rest).splitOnP (· == '\n') = l :: rest.splitOnP (· == '\n') := by
    apply List.splitOnP_append_cons_of_forall_mem
    · intro c hc
      simp only [beq_eq_false_iff_ne]
      exact fun h => hl (h ▸ hc)
    · rfl
  have hne := List.splitOnP_ne_nil (· == '\n') rest
  simp only [lines, String.toList_ofList, hsplit, List.dropLast_cons_of_ne_nil hne,
    List.getLast?_cons_of_ne_nil hne, List.map_cons, if_neg hcr]
  split_ifs
  · rfl
  · rfl

theorem lines_singleton {l : List Char} (hl : '\n' ∉ l) (hne : l ≠ []) :
    lines (String.ofList l) = [String.ofList l] := by
  have hsplit : l.splitOnP (· == '\n') = [l] := by
    apply List.splitOnP_eq_singleton
    intro c hc
    simp only [beq_eq_false_iff_ne]
    exact fun h => hl (h ▸ hc)
  have hlast : l.isEmpty = false := by simpa using hne
  simp [lines, hsplit, hlast]

def EndsLine (text : List Char) : Prop := text = [] ∨ text.getLast? = some '\n'

theorem lines_append {front : List Char} (h : EndsLine front) (back : List Char) :
    lines (String.ofList (front ++ back)) =
      lines (String.ofList front) ++ lines (String.ofList back) := by
  rcases h with rfl | hlast
  · rfl
  obtain ⟨l, rfl⟩ := List.getLast?_eq_some_iff.mp hlast
  have hback := List.splitOnP_ne_nil (· == '\n') back
  have hsplit : (l ++ ['\n'] ++ back).splitOnP (· == '\n') =
      l.splitOnP (· == '\n') ++ back.splitOnP (· == '\n') := by
    rw [List.append_assoc, List.singleton_append, List.splitOnP_append_cons l back rfl]
  have hfront : (l ++ ['\n']).splitOnP (· == '\n') = l.splitOnP (· == '\n') ++ [[]] :=
    List.splitOnP_append_cons l [] rfl
  simp only [lines, String.toList_ofList, hsplit, hfront, List.dropLast_append_of_ne_nil hback,
    List.getLast?_append_of_ne_nil _ hback, List.dropLast_concat, List.getLast?_concat,
    Option.getD_some, List.isEmpty_nil, if_true, List.map_append]
  split_ifs
  · rw [List.map_append]
  · simp only [List.map_append, List.append_assoc]

end Text
