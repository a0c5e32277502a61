import QuipCoordinator.FoundationScan
import QuipCoordinator.ListSource

/-!
# Text that looks like a credential

`looksLikeCredential` lowers the text and looks for the name of a secret, for a name
that is assigned a value, and for the prefix of a known token. A text is the list of
its characters. Lowering past ASCII follows a Unicode table, which is a parameter;
the one case it does not decide alone is the capital sigma, whose form depends on the
characters around it. Cutting a text short never makes it look like a credential.
-/

namespace QuipCoordinator

class UnicodeCase where
  -- `char::to_lowercase` of a character past ASCII
  lower : Char → List Char
  cased : Char → Bool
  caseIgnorable : Char → Bool

def utf8Len (s : List Char) : Nat := (s.map Char.utf8Size).sum

namespace CredentialScan
open ListSource (isWhitespace)

section Lowercase
variable [UnicodeCase]
open UnicodeCase

def lowerChar (c : Char) : List Char := if c.toNat < 128 then [c.toLower] else lower c

def caseIgnorableThenCased (s : List Char) : Bool :=
  (s.dropWhile caseIgnorable).head?.any cased

/-- `str::to_lowercase` of the rest of a text, with the characters before it, nearest first. -/
def toLowercase (before : List Char) : List Char → List Char
  | [] => []
  | c :: rest =>
    (if c = 'Σ' then
        [if caseIgnorableThenCased before && !caseIgnorableThenCased rest then 'ς' else 'σ']
      else lowerChar c) ++ toLowercase (c :: before) rest

end Lowercase

def needles : List (List Char) :=
  ["dwaveapikey".toList, "dwaveapitoken".toList, "awsaccesskey".toList, "awssecretkey".toList,
    "privatekey".toList]

def keys : List (List Char) :=
  ["apikey".toList, "token".toList, "secret".toList, "password".toList]

def isAsciiUppercase (c : Char) : Bool := 'A' ≤ c && c ≤ 'Z'
def isAsciiLowercase (c : Char) : Bool := 'a' ≤ c && c ≤ 'z'
def isAsciiDigit (c : Char) : Bool := '0' ≤ c && c ≤ '9'

def isTokenChar (c : Char) : Bool :=
  isAsciiUppercase c || isAsciiLowercase c || isAsciiDigit c || c == '.' || c == '-' || c == '_'

def hasPrefixedRun (value pre : List Char) (run : Nat) (ok : Char → Bool) : Bool :=
  (List.afterMatches pre 0 value).any fun rest => run ≤ (rest.takeWhile ok).length

def assignsValue (haystack key : List Char) : Bool :=
  (List.afterMatches key 0 haystack).any fun rest =>
    match rest.dropWhile isWhitespace with
    | [] => false
    | sep :: tail =>
      -- the first word of the tail; without one it is empty and too short
      (sep == ':' || sep == '=') &&
        8 ≤ utf8Len ((tail.dropWhile isWhitespace).takeWhile fun c => !isWhitespace c)

def looksLikeCredential [UnicodeCase] (value : List Char) : Bool :=
  let lowered := toLowercase [] value
  let squashed := lowered.filter fun c => c != '-' && c != '_'
  needles.any (fun needle => needle <:+: squashed) ||
    keys.any (fun key => assignsValue lowered key) ||
    hasPrefixedRun value "AKIA".toList 16 (fun c => isAsciiUppercase c || isAsciiDigit c) ||
    hasPrefixedRun lowered "sk-".toList 20 isTokenChar ||
    hasPrefixedRun lowered "bearer ".toList 20 isTokenChar ||
    hasPrefixedRun value "eyJ".toList 20 isTokenChar

/-! ## Cutting a text short -/

/-- The two forms of a small sigma are one letter. -/
def SameLetter (c d : Char) : Prop := c = d ∨ c ∈ ['ς', 'σ'] ∧ d ∈ ['ς', 'σ']

theorem sameLetter_refl (c : Char) : SameLetter c c := Or.inl rfl

theorem fixed_of_no_sigma {pat : List Char} (h : 'ς' ∉ pat ∧ 'σ' ∉ pat) :
    List.Fixed SameLetter pat := by
  have hno : ∀ c ∈ ['ς', 'σ'], c ∉ pat := by
    intro c hc
    rcases List.mem_pair.mp hc with rfl | rfl
    · exact h.1
    · exact h.2
  rintro x y (rfl | ⟨hx, hy⟩) hmem
  · rfl
  · rcases hmem with hmem | hmem
    · exact absurd hmem (hno x hx)
    · exact absurd hmem (hno y hy)

theorem fixed_eq (pat : List Char) : List.Fixed (· = ·) pat := fun _ _ h _ => h

theorem same_of_sigma {α : Type} {f : Char → α} (h : f 'ς' = f 'σ') {c d : Char}
    (hcd : SameLetter c d) : f c = f d := by
  rcases hcd with rfl | ⟨hc, hd⟩
  · rfl
  · rcases List.mem_pair.mp hc with rfl | rfl <;> rcases List.mem_pair.mp hd with rfl | rfl <;>
      simp [h]

theorem toLowercase_prefix [UnicodeCase] {p s : List Char} (h : p <+: s) (before : List Char) :
    List.PrefixRel SameLetter (toLowercase before p) (toLowercase before s) := by
  induction p generalizing s before with
  | nil => exact .nil _
  | cons c p ih =>
    obtain ⟨rest, rfl⟩ := h
    have ih := ih (List.prefix_append p rest) (c :: before)
    rw [List.cons_append, toLowercase, toLowercase]
    by_cases hc : c = 'Σ'
    · rw [if_pos hc, if_pos hc]
      refine .cons (Or.inr ⟨?_, ?_⟩) ih
      all_goals split_ifs <;> simp
    · rw [if_neg hc, if_neg hc]
      exact ih.append_left sameLetter_refl (lowerChar c)

section
variable {R : Char → Char → Prop} {a b : List Char}

theorem hasPrefixedRun_mono (h : List.PrefixRel R a b) {pre : List Char} (hpre : List.Fixed R pre)
    {ok : Char → Bool} (hok : ∀ c d, R c d → ok c = ok d) {run : Nat}
    (ha : hasPrefixedRun a pre run ok = true) : hasPrefixedRun b pre run ok = true := by
  obtain ⟨r, hr, hrun⟩ := List.any_eq_true.mp ha
  obtain ⟨r', hr', hrel⟩ := h.afterMatches hpre hr
  refine List.any_eq_true.mpr ⟨r', hr', decide_eq_true ?_⟩
  exact (of_decide_eq_true hrun).trans (hrel.takeWhile hok).length_le

theorem assignsValue_mono (h : List.PrefixRel SameLetter a b) {key : List Char}
    (hkey : List.Fixed SameLetter key) (ha : assignsValue a key = true) :
    assignsValue b key = true := by
  have hspace : ∀ c d, SameLetter c d → isWhitespace c = isWhitespace d :=
    fun c d => same_of_sigma (by decide)
  have hsize : ∀ c d, SameLetter c d → c.utf8Size = d.utf8Size :=
    fun c d => same_of_sigma (by decide)
  have hword : ∀ c d, SameLetter c d → (!isWhitespace c) = !isWhitespace d :=
    fun c d hcd => congrArg _ (hspace c d hcd)
  obtain ⟨r, hr, hassign⟩ := List.any_eq_true.mp ha
  obtain ⟨r', hr', hrel⟩ := h.afterMatches hkey hr
  refine List.any_eq_true.mpr ⟨r', hr', ?_⟩
  have hafter := hrel.dropWhile hspace
  generalize r.dropWhile isWhitespace = after at hafter hassign
  generalize r'.dropWhile isWhitespace = after' at hafter ⊢
  cases hafter with
  | nil => exact nomatch hassign
  | @cons sep sep' tail tail' hsep htail =>
    obtain ⟨hseps, hlong⟩ := Bool.and_eq_true_iff.mp hassign
    have hword' := (htail.dropWhile hspace).takeWhile hword
    have hlen := hword'.sum_le hsize
    have hsame : (sep' == ':' || sep' == '=') = (sep == ':' || sep == '=') :=
      (same_of_sigma (f := fun c => c == ':' || c == '=') (by decide) hsep).symm
    refine Bool.and_eq_true_iff.mpr ⟨hsame.trans hseps, decide_eq_true ?_⟩
    exact (of_decide_eq_true hlong).trans hlen

end

theorem looksLikeCredential_of_prefix [UnicodeCase] {p s : List Char} (h : p <+: s)
    (hp : looksLikeCredential p = true) : looksLikeCredential s = true := by
  have hvalue := List.PrefixRel.of_prefix (R := Eq) (fun _ => rfl) h
  have hlowered := toLowercase_prefix h []
  have hseparator : ∀ c d, SameLetter c d →
      (c != '-' && c != '_') = (d != '-' && d != '_') :=
    fun c d => same_of_sigma (f := fun c => c != '-' && c != '_') (by decide)
  have hsquashed := hlowered.filter hseparator
  have htoken : ∀ c d, SameLetter c d → isTokenChar c = isTokenChar d :=
    fun c d => same_of_sigma (by decide)
  have heq : ∀ (ok : Char → Bool) (c d : Char), c = d → ok c = ok d := fun ok c d h => by rw [h]
  simp only [looksLikeCredential, Bool.or_eq_true] at hp ⊢
  rcases hp with ((((hp | hp) | hp) | hp) | hp) | hp
  · refine Or.inl (Or.inl (Or.inl (Or.inl (Or.inl ?_))))
    obtain ⟨needle, hneedle, hin⟩ := List.any_eq_true.mp hp
    have hfixed : ∀ needle ∈ needles, 'ς' ∉ needle ∧ 'σ' ∉ needle := by decide
    refine List.any_eq_true.mpr ⟨needle, hneedle, decide_eq_true ?_⟩
    exact hsquashed.isInfix (fixed_of_no_sigma (hfixed needle hneedle)) (of_decide_eq_true hin)
  · refine Or.inl (Or.inl (Or.inl (Or.inl (Or.inr ?_))))
    obtain ⟨key, hkey, hassign⟩ := List.any_eq_true.mp hp
    have hfixed : ∀ key ∈ keys, 'ς' ∉ key ∧ 'σ' ∉ key := by decide
    refine List.any_eq_true.mpr ⟨key, hkey, ?_⟩
    exact assignsValue_mono hlowered (fixed_of_no_sigma (hfixed key hkey)) hassign
  · exact Or.inl (Or.inl (Or.inl (Or.inr
      (hasPrefixedRun_mono hvalue (fixed_eq _) (heq _) hp))))
  · exact Or.inl (Or.inl (Or.inr
      (hasPrefixedRun_mono hlowered (fixed_of_no_sigma (by decide)) htoken hp)))
  · exact Or.inl (Or.inr
      (hasPrefixedRun_mono hlowered (fixed_of_no_sigma (by decide)) htoken hp))
  · exact Or.inr (hasPrefixedRun_mono hvalue (fixed_eq _) (heq _) hp)

end CredentialScan
end QuipCoordinator
