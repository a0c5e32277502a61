import Mathlib.Data.List.Basic
import Mathlib.Order.Defs.Unbundled

/-!
# Paging through sorted keys

A reader asks for at most `count` keys beyond a given one and goes on from the last key
of a full page. On strictly sorted keys what is left beyond that key is what the page
left out, so the pages in their order are the keys.
-/

namespace Cursor
variable {κ : Type} {lt : κ → κ → Prop} [DecidableRel lt]

variable (lt) in
def beyond (keys : List κ) : Option κ → List κ
  | none => keys
  | some start => keys.filter fun k => lt start k

variable (lt) in
def page (keys : List κ) (count : Nat) (start : Option κ) : List κ :=
  (beyond lt keys start).take count

theorem pairwise_beyond {keys : List κ} (h : keys.Pairwise lt) (start : Option κ) :
    (beyond lt keys start).Pairwise lt := by
  cases start with
  | none => exact h
  | some k => exact h.filter _

theorem filter_beyond [IsTrans κ lt] {keys : List κ} {start : Option κ} {k : κ}
    (hk : k ∈ beyond lt keys start) :
    (beyond lt keys start).filter (fun k' => lt k k') = beyond lt keys (some k) := by
  cases start with
  | none => rfl
  | some s =>
    have hs : lt s k := by simpa using (List.mem_filter.mp hk).2
    rw [beyond, beyond, List.filter_filter]
    apply List.filter_congr
    intro k' _
    by_cases h : lt k k'
    · simp [h, IsTrans.trans _ _ _ hs h]
    · simp [h]

theorem filter_middle [Std.Irrefl lt] [IsTrans κ lt] {before after : List κ} {k : κ}
    (h : (before ++ k :: after).Pairwise lt) :
    (before ++ k :: after).filter (fun k' => lt k k') = after := by
  obtain ⟨-, hrest, hcross⟩ := List.pairwise_append.mp h
  obtain ⟨hafter, -⟩ := List.pairwise_cons.mp hrest
  have hbefore : before.filter (fun k' => lt k k') = [] := by
    apply List.filter_eq_nil_iff.mpr
    intro b hb hlt
    have hb' := hcross b hb k List.mem_cons_self
    exact Std.Irrefl.irrefl b (IsTrans.trans _ _ _ hb' (by simpa using hlt))
  have hself : ¬lt k k := Std.Irrefl.irrefl k
  rw [List.filter_append, hbefore, List.filter_cons_of_neg (by simpa using hself), List.nil_append]
  apply List.filter_eq_self.mpr
  intro a ha
  simpa using hafter a ha

/-- After a full page the keys beyond its last one are those the page left out. -/
theorem beyond_page [Std.Irrefl lt] [IsTrans κ lt] {keys : List κ} (h : keys.Pairwise lt)
    {count : Nat} {start : Option κ} {last : κ}
    (hlast : (page lt keys count start).getLast? = some last) :
    beyond lt keys (some last) = (beyond lt keys start).drop count := by
  obtain ⟨before, hpage⟩ := List.getLast?_eq_some_iff.mp hlast
  have hsplit : beyond lt keys start =
      before ++ last :: (beyond lt keys start).drop count := by
    rw [← List.take_append_drop count (beyond lt keys start)]
    change page lt keys count start ++ _ = _
    rw [hpage]
    simp
  have hmem : last ∈ beyond lt keys start := by
    rw [hsplit]
    simp
  have hsorted := pairwise_beyond h start
  rw [hsplit] at hsorted
  rw [← filter_beyond hmem, hsplit, filter_middle hsorted, ← hsplit]

theorem page_of_short {keys : List κ} {count : Nat} {start : Option κ}
    (h : (page lt keys count start).length < count) :
    page lt keys count start = beyond lt keys start := by
  apply List.take_of_length_le
  rw [page, List.length_take] at h
  omega

end Cursor
