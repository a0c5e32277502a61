import QuipCoordinator.CredentialScan

/-!
# The host survey

`sanitize` turns the probed strings into the two survey blocks of a descriptor. Each
string is scrubbed, scanned for a credential, cut at a character boundary to its
bound and, where the pallet wants one, replaced when nothing is left. Cutting comes
after the scan and still leaves no credential. Strings are emitted as their UTF-8
bytes.
-/

namespace QuipCoordinator
namespace Survey
open CredentialScan
open ListSource (isWhitespace trim)

def maxOsStringBytes : Nat := 64
def maxCpuBrandBytes : Nat := 96
def maxArchBytes : Nat := 16
def maxGpuVendorBytes : Nat := 16
def maxGpuNameBytes : Nat := 96
def maxGpus : Nat := 16
def maxRuntimeVersionBytes : Nat := 48
def maxDockerImageBytes : Nat := 256

def unknown : List Char := "unknown".toList
def redacted : List Char := "redacted".toList
def surveyProtocolVersion : Nat := 1
def cargoPkgVersion : String := "0.3.6"

structure RawGpu where
  vendor : String
  name : String
  memoryMb : Option Nat
  utilizationPct : Option Nat

structure RawSurvey where
  osSystem : String
  osRelease : String
  osMachine : String
  cpuBrand : String
  cpuArch : String
  logicalCores : Option Nat
  physicalCores : Option Nat
  memoryMb : Option Nat
  gpus : List RawGpu
  python : String
  inDocker : Bool
  dockerImage : Option String

structure OsInfoScale where
  system : Bytes
  release : Bytes
  machine : Bytes
deriving DecidableEq

structure CpuInfoScale where
  logicalCores : Option Nat
  physicalCores : Option Nat
  brand : Bytes
  arch : Bytes
deriving DecidableEq

structure GpuInfoScale where
  index : Nat
  vendor : Bytes
  name : Bytes
  memoryMb : Option Nat
  utilizationPct : Option Nat
deriving DecidableEq

structure SystemInfoScale where
  os : OsInfoScale
  cpu : CpuInfoScale
  memoryMb : Option Nat
  gpus : List GpuInfoScale
deriving DecidableEq

structure RuntimeInfoScale where
  python : Bytes
  quipVersion : Bytes
  protocolVersion : Nat
  inDocker : Bool
  dockerImage : Option Bytes
deriving DecidableEq

structure HostSurvey where
  system : SystemInfoScale
  runtime : RuntimeInfoScale
deriving DecidableEq

def encodeUtf8 (s : List Char) : Bytes := s.flatMap String.utf8EncodeChar

@[simp] theorem length_encodeUtf8 (s : List Char) : (encodeUtf8 s).length = utf8Len s := by
  simp [encodeUtf8, utf8Len, List.length_flatMap]

def isControl (c : Char) : Bool := c.toNat < 0x20 || (0x7f ≤ c.toNat && c.toNat ≤ 0x9f)

def isInvisible (c : Char) : Bool :=
  let n := c.toNat
  n == 0xad || (0x200b ≤ n && n ≤ 0x200f) || (0x2028 ≤ n && n ≤ 0x202e) ||
    (0x2060 ≤ n && n ≤ 0x2064) || (0x2066 ≤ n && n ≤ 0x2069) || n == 0xfeff ||
    (0xfff9 ≤ n && n ≤ 0xfffb)

/-- The rest of a text, once `started` and with a `gap` before it. -/
def scrubFrom (started gap : Bool) : List Char → List Char
  | [] => []
  | c :: rest =>
    if isControl c || isWhitespace c || isInvisible c then scrubFrom started true rest
    else (if gap && started then [' '] else []) ++ c :: scrubFrom true false rest

def scrub (value : List Char) : List Char := scrubFrom false false value

/-- `value.get(..n)`: nothing inside a character or past the end. -/
def takeBytes : List Char → Nat → Option (List Char)
  | _, 0 => some []
  | [], _ + 1 => none
  | c :: s, n + 1 =>
    if c.utf8Size ≤ n + 1 then (takeBytes s (n + 1 - c.utf8Size)).map (c :: ·) else none

def boundaryBelow (s : List Char) : Nat → Nat
  | 0 => 0
  | n + 1 => if (takeBytes s (n + 1)).isSome then n + 1 else boundaryBelow s n

def clampUtf8 (value : List Char) (max : Nat) : List Char :=
  let trimmed := trim value
  if utf8Len trimmed ≤ max then trimmed
  else (takeBytes trimmed (boundaryBelow trimmed max)).getD []

section Sanitize
variable [UnicodeCase]

def bounded (value : String) (max : Nat) : Bytes :=
  let scrubbed := scrub value.toList
  if looksLikeCredential scrubbed then encodeUtf8 redacted
  else encodeUtf8 (clampUtf8 scrubbed max)

def boundedNonempty (value : String) (max : Nat) : Bytes :=
  let out := bounded value max
  if out.isEmpty then encodeUtf8 unknown else out

def sanitizeGpu (index : Nat) (raw : RawGpu) : GpuInfoScale where
  index := if index < 256 then index else 255
  vendor := boundedNonempty raw.vendor maxGpuVendorBytes
  name := boundedNonempty raw.name maxGpuNameBytes
  memoryMb := raw.memoryMb
  utilizationPct := raw.utilizationPct.map (min · 100)

def sanitize (raw : RawSurvey) : HostSurvey where
  runtime :=
    { python := boundedNonempty raw.python maxRuntimeVersionBytes
      quipVersion := boundedNonempty cargoPkgVersion maxRuntimeVersionBytes
      protocolVersion := surveyProtocolVersion
      inDocker := raw.inDocker
      dockerImage := (raw.dockerImage.map (bounded · maxDockerImageBytes)).filter (!·.isEmpty) }
  system :=
    { os :=
        { system := boundedNonempty raw.osSystem maxOsStringBytes
          release := bounded raw.osRelease maxOsStringBytes
          machine := bounded raw.osMachine maxOsStringBytes }
      cpu :=
        { logicalCores := raw.logicalCores
          physicalCores :=
            match raw.physicalCores, raw.logicalCores with
            | some physical, some logical => some (min physical logical)
            | physical, _ => physical
          brand := boundedNonempty raw.cpuBrand maxCpuBrandBytes
          arch := boundedNonempty raw.cpuArch maxArchBytes }
      memoryMb := raw.memoryMb
      gpus := (raw.gpus.take maxGpus).zipIdx.map fun p => sanitizeGpu p.2 p.1 }

end Sanitize

def fitsPalletBounds (info : SystemInfoScale) : Bool :=
  let osOk := !info.os.system.isEmpty && info.os.system.length ≤ maxOsStringBytes &&
    info.os.release.length ≤ maxOsStringBytes && info.os.machine.length ≤ maxOsStringBytes
  let cpuOk := !info.cpu.brand.isEmpty && info.cpu.brand.length ≤ maxCpuBrandBytes &&
    !info.cpu.arch.isEmpty && info.cpu.arch.length ≤ maxArchBytes
  let gpusOk := info.gpus.length ≤ maxGpus && info.gpus.all fun gpu =>
    !gpu.vendor.isEmpty && gpu.vendor.length ≤ maxGpuVendorBytes && !gpu.name.isEmpty &&
      gpu.name.length ≤ maxGpuNameBytes && gpu.utilizationPct.all (· ≤ 100)
  osOk && cpuOk && gpusOk

def runtimeFitsPalletBounds (info : RuntimeInfoScale) : Bool :=
  !info.python.isEmpty && info.python.length ≤ maxRuntimeVersionBytes &&
    !info.quipVersion.isEmpty && info.quipVersion.length ≤ maxRuntimeVersionBytes &&
    info.dockerImage.all fun image => !image.isEmpty && image.length ≤ maxDockerImageBytes

/-! ## Scrubbing -/

theorem scrubFrom_cons (started gap : Bool) (c : Char) (rest : List Char) :
    scrubFrom started gap (c :: rest) =
      if isControl c || isWhitespace c || isInvisible c then scrubFrom started true rest
      else (if gap && started then [' '] else []) ++ c :: scrubFrom true false rest := rfl

theorem mem_scrubFrom {started gap : Bool} {s : List Char} {c : Char}
    (h : c ∈ scrubFrom started gap s) : isControl c = false ∧ isInvisible c = false := by
  induction s generalizing started gap with
  | nil => exact absurd h List.not_mem_nil
  | cons d s ih =>
    rw [scrubFrom_cons] at h
    split_ifs at h with hdrop hgap
    · exact ih h
    all_goals
      rw [Bool.not_eq_true, Bool.or_eq_false_iff, Bool.or_eq_false_iff] at hdrop
      simp only [List.cons_append, List.nil_append, List.mem_cons] at h
    · rcases h with rfl | rfl | h
      · decide
      · exact ⟨hdrop.1.1, hdrop.2⟩
      · exact ih h
    · rcases h with rfl | h
      · exact ⟨hdrop.1.1, hdrop.2⟩
      · exact ih h

theorem head_scrubFrom {gap : Bool} {s : List Char} {c : Char}
    (h : c ∈ (scrubFrom false gap s).head?) : isWhitespace c = false := by
  induction s generalizing gap with
  | nil => exact nomatch h
  | cons d s ih =>
    rw [scrubFrom_cons] at h
    split_ifs at h with hdrop hgap
    · exact ih h
    · rw [Bool.and_false] at hgap
      exact nomatch hgap
    · rw [Bool.not_eq_true, Bool.or_eq_false_iff, Bool.or_eq_false_iff] at hdrop
      obtain rfl := Option.some.inj h
      exact hdrop.1.2

theorem getLast_scrubFrom {started gap : Bool} {s : List Char} {c : Char}
    (h : c ∈ (scrubFrom started gap s).getLast?) : isWhitespace c = false := by
  induction s generalizing started gap with
  | nil => exact nomatch h
  | cons d s ih =>
    rw [scrubFrom_cons] at h
    split_ifs at h with hdrop hgap
    · exact ih h
    all_goals
      rw [Bool.not_eq_true, Bool.or_eq_false_iff, Bool.or_eq_false_iff] at hdrop
      rw [List.getLast?_append, List.getLast?_cons] at h
      cases hlast : (scrubFrom true false s).getLast? with
      | none =>
        rw [hlast] at h
        obtain rfl := Option.some.inj h
        exact hdrop.1.2
      | some e =>
        rw [hlast] at h
        obtain rfl := Option.some.inj h
        exact ih (Option.mem_def.mpr hlast)

theorem no_gap_scrubFrom (started gap : Bool) (s : List Char) :
    ¬[' ', ' '] <:+: scrubFrom started gap s := by
  induction s generalizing started gap with
  | nil =>
    intro h
    have hlen := h.length_le
    rw [scrubFrom] at hlen
    exact absurd hlen (by decide)
  | cons c s ih =>
    rw [scrubFrom_cons]
    split_ifs with hdrop hgap
    · exact ih started true
    all_goals
      have hc : c ≠ ' ' := by
        rintro rfl
        exact hdrop (by decide)
      have htail : ¬[' ', ' '] <:+: c :: scrubFrom true false s := by
        intro h
        rcases List.infix_cons_iff.mp h with h | h
        · exact hc (List.cons_prefix_cons.mp h).1.symm
        · exact ih true false h
    · intro h
      rcases List.infix_cons_iff.mp h with h | h
      · exact hc (List.cons_prefix_cons.mp (List.cons_prefix_cons.mp h).2).1.symm
      · exact htail h
    · exact htail

theorem dropWhile_of_head {p : Char → Bool} {s : List Char} (h : ∀ c ∈ s.head?, p c = false) :
    s.dropWhile p = s := by
  cases s with
  | nil => rfl
  | cons c s => exact List.dropWhile_cons_of_neg (by simp [h c rfl])

theorem trim_scrub (s : List Char) : trim (scrub s) = scrub s := by
  have hhead : ∀ c ∈ (scrub s).head?, isWhitespace c = false := fun c hc => head_scrubFrom hc
  have hlast : ∀ c ∈ (scrub s).reverse.head?, isWhitespace c = false := by
    intro c hc
    rw [List.head?_reverse] at hc
    exact getLast_scrubFrom hc
  rw [trim, dropWhile_of_head hhead, dropWhile_of_head hlast, List.reverse_reverse]

/-! ## Cutting at a boundary -/

theorem takeBytes_eq_some {s t : List Char} {n : Nat} (h : takeBytes s n = some t) :
    t <+: s ∧ utf8Len t = n := by
  induction s generalizing n t with
  | nil =>
    cases n with
    | zero =>
      obtain rfl := Option.some.inj h
      exact ⟨List.nil_prefix, rfl⟩
    | succ n => exact nomatch h
  | cons c s ih =>
    cases n with
    | zero =>
      obtain rfl := Option.some.inj h
      exact ⟨List.nil_prefix, rfl⟩
    | succ n =>
      rw [takeBytes] at h
      split_ifs at h with hfit
      obtain ⟨t, ht, rfl⟩ := Option.map_eq_some_iff.mp h
      obtain ⟨hpre, hlen⟩ := ih ht
      refine ⟨(List.prefix_cons_inj c).mpr hpre, ?_⟩
      rw [utf8Len, List.map_cons, List.sum_cons, ← utf8Len, hlen]
      omega

theorem boundaryBelow_spec (s : List Char) (n : Nat) :
    boundaryBelow s n ≤ n ∧ (takeBytes s (boundaryBelow s n)).isSome = true := by
  induction n with
  | zero =>
    refine ⟨Nat.le_refl 0, ?_⟩
    cases s <;> rfl
  | succ n ih =>
    rw [boundaryBelow]
    split_ifs with h
    · exact ⟨Nat.le_refl _, h⟩
    · exact ⟨Nat.le_succ_of_le ih.1, ih.2⟩

theorem clampUtf8_spec (value : List Char) (max : Nat) :
    clampUtf8 value max <+: trim value ∧ utf8Len (clampUtf8 value max) ≤ max := by
  rw [clampUtf8]
  split_ifs with hfit
  · exact ⟨List.prefix_rfl, hfit⟩
  · obtain ⟨hle, hsome⟩ := boundaryBelow_spec (trim value) max
    obtain ⟨t, ht⟩ := Option.isSome_iff_exists.mp hsome
    obtain ⟨hpre, hlen⟩ := takeBytes_eq_some ht
    rw [ht, Option.getD_some]
    exact ⟨hpre, hlen.trans_le hle⟩

/-! ## Emitted strings -/

theorem printable_of_all {s : List Char}
    (h : s.all (fun c => !isControl c && !isInvisible c) = true) :
    ∀ c ∈ s, isControl c = false ∧ isInvisible c = false := by
  simpa using h

section Emitted
variable [UnicodeCase]

structure CleanText (s : List Char) : Prop where
  printable : ∀ c ∈ s, isControl c = false ∧ isInvisible c = false
  noRun : ¬[' ', ' '] <:+: s
  harmless : looksLikeCredential s = false

def Emitted (bytes : Bytes) : Prop := ∃ s, bytes = encodeUtf8 s ∧ CleanText s

theorem CleanText.of_prefix {s t : List Char} (h : CleanText s) (hpre : t <+: s) : CleanText t where
  printable := fun c hc => h.printable c (hpre.subset hc)
  noRun := fun hrun => h.noRun (hrun.trans hpre.isInfix)
  harmless := by
    by_contra hcred
    have hbad := looksLikeCredential_of_prefix hpre (Bool.eq_true_of_not_eq_false hcred)
    rw [h.harmless] at hbad
    exact nomatch hbad

theorem cleanText_redacted : CleanText redacted := ⟨printable_of_all (by decide), by decide, rfl⟩
theorem cleanText_unknown : CleanText unknown := ⟨printable_of_all (by decide), by decide, rfl⟩

theorem bounded_spec (value : String) {max : Nat} (hmax : 8 ≤ max) :
    Emitted (bounded value max) ∧ (bounded value max).length ≤ max := by
  rw [bounded]
  split_ifs with hcred
  · refine ⟨⟨redacted, rfl, cleanText_redacted⟩, ?_⟩
    rw [length_encodeUtf8]
    exact hmax
  · obtain ⟨hpre, hlen⟩ := clampUtf8_spec (scrub value.toList) max
    rw [trim_scrub] at hpre
    have hclean : CleanText (scrub value.toList) :=
      ⟨fun c hc => mem_scrubFrom hc, no_gap_scrubFrom _ _ _, Bool.eq_false_of_not_eq_true hcred⟩
    refine ⟨⟨_, rfl, hclean.of_prefix hpre⟩, ?_⟩
    rw [length_encodeUtf8]
    exact hlen

theorem boundedNonempty_spec (value : String) {max : Nat} (hmax : 8 ≤ max) :
    Emitted (boundedNonempty value max) ∧ (boundedNonempty value max).length ≤ max ∧
      (boundedNonempty value max).isEmpty = false := by
  obtain ⟨hemitted, hlen⟩ := bounded_spec value hmax
  rw [boundedNonempty]
  split_ifs with hempty
  · refine ⟨⟨unknown, rfl, cleanText_unknown⟩, ?_, by decide⟩
    rw [length_encodeUtf8]
    exact Nat.le_trans (by decide) hmax
  · exact ⟨hemitted, hlen, Bool.eq_false_of_not_eq_true hempty⟩

/-! ## The survey -/

def HostSurvey.texts (survey : HostSurvey) : List Bytes :=
  [survey.system.os.system, survey.system.os.release, survey.system.os.machine,
    survey.system.cpu.brand, survey.system.cpu.arch, survey.runtime.python,
    survey.runtime.quipVersion] ++ survey.runtime.dockerImage.toList ++
    survey.system.gpus.flatMap fun gpu => [gpu.vendor, gpu.name]

structure SafeSurvey (survey : HostSurvey) : Prop where
  system : fitsPalletBounds survey.system = true
  runtime : runtimeFitsPalletBounds survey.runtime = true
  emitted : ∀ bytes ∈ survey.texts, Emitted bytes
  cores : ∀ physical ∈ survey.system.cpu.physicalCores, ∀ logical ∈ survey.system.cpu.logicalCores,
    physical ≤ logical
  indices : ∀ (i : Nat) (gpu : GpuInfoScale), survey.system.gpus[i]? = some gpu → gpu.index = i

theorem sanitize_gpus_getElem? {raw : RawSurvey} {i : Nat} {gpu : GpuInfoScale}
    (h : (sanitize raw).system.gpus[i]? = some gpu) :
    i < maxGpus ∧ ∃ rawGpu, gpu = sanitizeGpu i rawGpu := by
  rw [sanitize, List.getElem?_map] at h
  obtain ⟨⟨rawGpu, j⟩, hget, rfl⟩ := Option.map_eq_some_iff.mp h
  rw [List.getElem?_zipIdx] at hget
  obtain ⟨rawGpu', htake, heq⟩ := Option.map_eq_some_iff.mp hget
  rw [Prod.mk.injEq, Nat.zero_add] at heq
  obtain ⟨rfl, rfl⟩ := heq
  have hi := (List.getElem?_eq_some_iff.mp htake).1
  rw [List.length_take] at hi
  exact ⟨(Nat.lt_min.mp hi).1, rawGpu', rfl⟩

theorem mem_sanitize_gpus {raw : RawSurvey} {gpu : GpuInfoScale}
    (h : gpu ∈ (sanitize raw).system.gpus) : ∃ i rawGpu, gpu = sanitizeGpu i rawGpu := by
  obtain ⟨i, hi⟩ := List.mem_iff_getElem?.mp h
  exact ⟨i, (sanitize_gpus_getElem? hi).2⟩

theorem dockerImage_spec {raw : RawSurvey} {image : Bytes}
    (h : image ∈ (sanitize raw).runtime.dockerImage) :
    Emitted image ∧ image.length ≤ maxDockerImageBytes ∧ image.isEmpty = false := by
  obtain ⟨hmap, hempty⟩ := Option.filter_eq_some_iff.mp (Option.mem_def.mp h)
  obtain ⟨value, -, rfl⟩ := Option.map_eq_some_iff.mp hmap
  obtain ⟨hemitted, hlen⟩ := bounded_spec value (show 8 ≤ maxDockerImageBytes by decide)
  exact ⟨hemitted, hlen, by simpa using hempty⟩

theorem utilization_sanitizeGpu (i : Nat) (raw : RawGpu) :
    (sanitizeGpu i raw).utilizationPct.all (· ≤ 100) = true := by
  rw [sanitizeGpu, Option.all_map]
  cases raw.utilizationPct with
  | none => rfl
  | some pct => exact decide_eq_true (Nat.min_le_right pct 100)

theorem fits_sanitizeGpu (i : Nat) (raw : RawGpu) :
    (!(sanitizeGpu i raw).vendor.isEmpty && (sanitizeGpu i raw).vendor.length ≤ maxGpuVendorBytes &&
      !(sanitizeGpu i raw).name.isEmpty && (sanitizeGpu i raw).name.length ≤ maxGpuNameBytes &&
      (sanitizeGpu i raw).utilizationPct.all (· ≤ 100)) = true := by
  obtain ⟨-, hvendor, hvendor'⟩ :=
    boundedNonempty_spec raw.vendor (show 8 ≤ maxGpuVendorBytes by decide)
  obtain ⟨-, hname, hname'⟩ := boundedNonempty_spec raw.name (show 8 ≤ maxGpuNameBytes by decide)
  rw [utilization_sanitizeGpu]
  simp only [sanitizeGpu, hvendor, hvendor', hname, hname', Bool.not_false, decide_true,
    Bool.and_self]

theorem fitsPalletBounds_sanitize (raw : RawSurvey) :
    fitsPalletBounds (sanitize raw).system = true := by
  obtain ⟨-, hsystem, hsystem'⟩ :=
    boundedNonempty_spec raw.osSystem (show 8 ≤ maxOsStringBytes by decide)
  obtain ⟨-, hrelease⟩ := bounded_spec raw.osRelease (show 8 ≤ maxOsStringBytes by decide)
  obtain ⟨-, hmachine⟩ := bounded_spec raw.osMachine (show 8 ≤ maxOsStringBytes by decide)
  obtain ⟨-, hbrand, hbrand'⟩ :=
    boundedNonempty_spec raw.cpuBrand (show 8 ≤ maxCpuBrandBytes by decide)
  obtain ⟨-, harch, harch'⟩ :=
    boundedNonempty_spec raw.cpuArch (show 8 ≤ maxArchBytes by decide)
  have hcount : (sanitize raw).system.gpus.length ≤ maxGpus := by simp [sanitize]
  have hgpus : ∀ gpu ∈ (sanitize raw).system.gpus, (!gpu.vendor.isEmpty &&
      gpu.vendor.length ≤ maxGpuVendorBytes && !gpu.name.isEmpty &&
      gpu.name.length ≤ maxGpuNameBytes && gpu.utilizationPct.all (· ≤ 100)) = true := by
    intro gpu hgpu
    obtain ⟨i, rawGpu, rfl⟩ := mem_sanitize_gpus hgpu
    exact fits_sanitizeGpu i rawGpu
  rw [fitsPalletBounds, List.all_eq_true.mpr hgpus]
  simp only [sanitize] at hcount ⊢
  simp only [hsystem, hsystem', hrelease, hmachine, hbrand, hbrand', harch, harch', hcount,
    Bool.not_false, decide_true, Bool.and_self]

theorem runtimeFitsPalletBounds_sanitize (raw : RawSurvey) :
    runtimeFitsPalletBounds (sanitize raw).runtime = true := by
  obtain ⟨-, hpython, hpython'⟩ :=
    boundedNonempty_spec raw.python (show 8 ≤ maxRuntimeVersionBytes by decide)
  obtain ⟨-, hversion, hversion'⟩ :=
    boundedNonempty_spec cargoPkgVersion (show 8 ≤ maxRuntimeVersionBytes by decide)
  have himage : (sanitize raw).runtime.dockerImage.all
      (fun image => !image.isEmpty && image.length ≤ maxDockerImageBytes) = true := by
    rw [Option.all_eq_true]
    intro image himage
    obtain ⟨-, hlen, hne⟩ := dockerImage_spec himage
    simp only [hlen, hne, Bool.not_false, decide_true, Bool.and_self]
  rw [runtimeFitsPalletBounds, himage]
  simp only [sanitize, hpython, hpython', hversion, hversion', Bool.not_false, decide_true,
    Bool.and_self]

theorem emitted_sanitize {raw : RawSurvey} {bytes : Bytes} (h : bytes ∈ (sanitize raw).texts) :
    Emitted bytes := by
  have hrequired : ∀ (value : String) {max : Nat}, 8 ≤ max → Emitted (boundedNonempty value max) :=
    fun value _ hmax => (boundedNonempty_spec value hmax).1
  have hoptional : ∀ (value : String) {max : Nat}, 8 ≤ max → Emitted (bounded value max) :=
    fun value _ hmax => (bounded_spec value hmax).1
  rw [HostSurvey.texts, List.mem_append, List.mem_append] at h
  rcases h with (h | h) | h
  · simp only [sanitize, List.mem_cons, List.not_mem_nil, or_false] at h
    rcases h with rfl | rfl | rfl | rfl | rfl | rfl | rfl
    · exact hrequired _ (show 8 ≤ maxOsStringBytes by decide)
    · exact hoptional _ (show 8 ≤ maxOsStringBytes by decide)
    · exact hoptional _ (show 8 ≤ maxOsStringBytes by decide)
    · exact hrequired _ (show 8 ≤ maxCpuBrandBytes by decide)
    · exact hrequired _ (show 8 ≤ maxArchBytes by decide)
    · exact hrequired raw.python (show 8 ≤ maxRuntimeVersionBytes by decide)
    · exact hrequired cargoPkgVersion (show 8 ≤ maxRuntimeVersionBytes by decide)
  · exact (dockerImage_spec (Option.mem_toList.mp h)).1
  · obtain ⟨gpu, hgpu, hmem⟩ := List.mem_flatMap.mp h
    obtain ⟨i, rawGpu, rfl⟩ := mem_sanitize_gpus hgpu
    rw [sanitizeGpu] at hmem
    rcases List.mem_pair.mp hmem with rfl | rfl
    · exact hrequired _ (show 8 ≤ maxGpuVendorBytes by decide)
    · exact hrequired _ (show 8 ≤ maxGpuNameBytes by decide)

theorem cores_sanitize {raw : RawSurvey} {physical logical : Nat}
    (hp : physical ∈ (sanitize raw).system.cpu.physicalCores)
    (hl : logical ∈ (sanitize raw).system.cpu.logicalCores) : physical ≤ logical := by
  have hl' : raw.logicalCores = some logical := hl
  rw [sanitize, hl'] at hp
  cases hraw : raw.physicalCores with
  | none =>
    rw [hraw] at hp
    exact nomatch hp
  | some cores =>
    rw [hraw] at hp
    obtain rfl := Option.some.inj hp
    exact Nat.min_le_right cores logical

theorem sanitize_safe (raw : RawSurvey) : SafeSurvey (sanitize raw) where
  system := fitsPalletBounds_sanitize raw
  runtime := runtimeFitsPalletBounds_sanitize raw
  emitted := fun _ h => emitted_sanitize h
  cores := fun _ hp _ hl => cores_sanitize hp hl
  indices := by
    intro i gpu h
    obtain ⟨hi, rawGpu, rfl⟩ := sanitize_gpus_getElem? h
    exact if_pos (Nat.lt_trans hi (by decide))

end Emitted
end Survey
end QuipCoordinator
