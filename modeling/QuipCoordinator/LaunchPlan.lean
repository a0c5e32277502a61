import QuipCoordinator.FoundationFallible
import Mathlib.Algebra.Group.Int.Defs
import Mathlib.Data.List.Perm.Basic
import Mathlib.Data.List.Nodup
import Mathlib.Data.String.Basic

/-!
# The launch plan

`parseLaunch` reads one miner entry from each backend section of the configuration,
and one for each `[cuda.N]` sub-table. The key of such a sub-table is text and names
a device by the number it parses to, so the devices are collected in an ordered map
and a second key for one device is refused. A table is the list of its entries in
key order. Writing a table back as text is a parameter.
-/

namespace QuipCoordinator
namespace Config

inductive TomlValue
  | string (s : String)
  | integer (i : Int)
  | float (bits : Nat)
  | boolean (b : Bool)
  | datetime (text : String)
  | array (items : List TomlValue)
  | table (entries : List (String × TomlValue))

abbrev TomlTable := List (String × TomlValue)

namespace TomlValue

mutual

def Ordered : TomlValue → Prop
  | .array items => OrderedItems items
  | .table entries => (entries.map Prod.fst).Pairwise (· < ·) ∧ OrderedEntries entries
  | _ => True

def OrderedItems : List TomlValue → Prop
  | [] => True
  | value :: rest => value.Ordered ∧ OrderedItems rest

def OrderedEntries : List (String × TomlValue) → Prop
  | [] => True
  | (_, value) :: rest => value.Ordered ∧ OrderedEntries rest

end

def asTable : TomlValue → Option TomlTable
  | .table entries => some entries
  | _ => none

def asStr : TomlValue → Option String
  | .string s => some s
  | _ => none

def asInteger : TomlValue → Option Int
  | .integer i => some i
  | _ => none

def isTable (value : TomlValue) : Bool := value.asTable.isSome

end TomlValue

structure TomlDocument where
  root : TomlTable
  ordered : (TomlValue.table root).Ordered

class TomlWriter where
  -- `toml::to_string`
  toString : TomlTable → Option String

inductive ConfigError
  | indexedSingleDeviceSection (backend key : String)
  | cudaSectionNotIndexed (key : String)
  | duplicateCudaDevice (device : Nat)
deriving DecidableEq

structure Configure where
  queueDepth : Nat
  idleTimeoutS : Nat
  heartbeatS : Nat
  reconnectWindowS : Nat
  backendToml : String
deriving DecidableEq

structure LaunchEntry where
  minerId : String
  binary : String
  configure : Configure
  backend : String
  device : Option Nat
deriving DecidableEq

/-- `str::parse::<usize>`: digits, after one plus sign if there is one. -/
def parseUsize (s : String) : Option Nat :=
  let digits := match s.toList with
    | '+' :: rest => rest
    | chars => chars
  let n := Nat.ofDigitChars 10 digits 0
  if !digits.isEmpty && digits.all Char.isDigit && n < 2 ^ 64 then some n else none

section Launch
variable [TomlWriter]

def coordinatorKeys : List String :=
  ["binary", "queue_depth", "idle_timeout_s", "heartbeat_s", "reconnect_window_s"]

-- `i as u32` keeps the low 32 bits
def u32Of (table : TomlTable) (key : String) (default : Nat) : Nat :=
  match (table.lookup key).bind TomlValue.asInteger with
  | some i => (i % 2 ^ 32).toNat
  | none => default

def makeConfigure (table : TomlTable) : Configure where
  queueDepth := u32Of table "queue_depth" 3
  idleTimeoutS := u32Of table "idle_timeout_s" 300
  heartbeatS := u32Of table "heartbeat_s" 15
  reconnectWindowS := u32Of table "reconnect_window_s" 60
  backendToml :=
    (TomlWriter.toString (table.filter fun e => !coordinatorKeys.contains e.1)).getD ""

def defaultBinary (backend : String) : String :=
  if backend = "dwave" then "quip-dwave-qa" else "quip-" ++ backend ++ "-sa"

def entryBinary (backend : String) (table : TomlTable) : String :=
  ((table.lookup "binary").bind TomlValue.asStr).getD (defaultBinary backend)

def entry (minerId backend : String) (device : Option Nat) (table : TomlTable) : LaunchEntry where
  minerId := minerId
  binary := entryBinary backend table
  configure := makeConfigure table
  backend := backend
  device := device

def rejectIndexed (backend : String) : TomlTable → Except ConfigError Unit
  | [] => .ok ()
  | (key, value) :: rest =>
    if value.isTable then .error (.indexedSingleDeviceSection backend key)
    else rejectIndexed backend rest

def section? (root : TomlTable) (key : String) : Option TomlTable :=
  (root.lookup key).bind TomlValue.asTable

def singleDevice (minerId backend : String) (root : TomlTable) :
    Except ConfigError (List LaunchEntry) :=
  match section? root backend with
  | none => .ok []
  | some table => do
    rejectIndexed backend table
    return [entry minerId backend none table]

def byDevice (devices : Std.TreeMap Nat TomlTable) :
    TomlTable → Except ConfigError (Std.TreeMap Nat TomlTable)
  | [] => .ok devices
  | (key, value) :: rest =>
    match value.asTable with
    | none => byDevice devices rest
    | some table =>
      match parseUsize key with
      | none => .error (.cudaSectionNotIndexed key)
      | some n =>
        let inserted := devices.containsThenInsert n table
        if inserted.1 then .error (.duplicateCudaDevice n) else byDevice inserted.2 rest

def cudaId (n : Nat) : String := "cuda-" ++ toString n

def cudaEntry (device : Nat × TomlTable) : LaunchEntry :=
  entry (cudaId device.1) "cuda" (some device.1) device.2

def cudaEntries (root : TomlTable) : Except ConfigError (List LaunchEntry) :=
  match section? root "cuda" with
  | none => .ok []
  | some cuda => do
    let devices ← byDevice ∅ cuda
    return devices.toList.map cudaEntry

-- `[qpu]` is read only when there is no key `dwave` at all
def dwaveSection (root : TomlTable) : Option TomlTable :=
  ((root.lookup "dwave").or (root.lookup "qpu")).bind TomlValue.asTable

def dwaveEntries (root : TomlTable) : List LaunchEntry :=
  (dwaveSection root).toList.map (entry "qpu-0" "dwave" none)

def parseLaunch (root : TomlTable) : Except ConfigError (List LaunchEntry) := do
  let cpu ← singleDevice "cpu-0" "cpu" root
  let cuda ← cudaEntries root
  let metal ← singleDevice "metal-0" "metal" root
  return cpu ++ cuda ++ metal ++ dwaveEntries root

end Launch

/-! ## Sub-tables -/

def subTables (table : TomlTable) : List (String × TomlTable) :=
  table.filterMap fun e => e.2.asTable.map fun sub => (e.1, sub)

def cudaSections (root : TomlTable) : List (String × TomlTable) :=
  (section? root "cuda").elim [] subTables

theorem subTables_cons_none {key : String} {value : TomlValue} (h : value.asTable = none)
    (rest : TomlTable) : subTables ((key, value) :: rest) = subTables rest :=
  List.filterMap_cons_none (by rw [h]; rfl)

theorem subTables_cons_some {key : String} {value : TomlValue} {sub : TomlTable}
    (h : value.asTable = some sub) (rest : TomlTable) :
    subTables ((key, value) :: rest) = (key, sub) :: subTables rest :=
  List.filterMap_cons_some (by rw [h]; rfl)

theorem keys_subTables_sublist (table : TomlTable) :
    ((subTables table).map Prod.fst).Sublist (table.map Prod.fst) := by
  induction table with
  | nil => exact List.Sublist.slnil
  | cons e rest ih =>
    obtain ⟨key, value⟩ := e
    cases h : value.asTable with
    | none =>
      rw [subTables_cons_none h]
      exact ih.cons key
    | some sub =>
      rw [subTables_cons_some h]
      exact ih.cons_cons key

theorem rejectIndexed_eq_ok {backend : String} {table : TomlTable} :
    rejectIndexed backend table = .ok () ↔ subTables table = [] := by
  induction table with
  | nil => exact ⟨fun _ => rfl, fun _ => rfl⟩
  | cons e rest ih =>
    obtain ⟨key, value⟩ := e
    rw [rejectIndexed, TomlValue.isTable]
    cases h : value.asTable with
    | none =>
      rw [subTables_cons_none h]
      exact ih
    | some sub =>
      rw [subTables_cons_some h]
      exact ⟨fun hok => (nomatch hok), fun hnil => (nomatch hnil)⟩

theorem OrderedEntries.of_mem {key : String} {value : TomlValue} {table : TomlTable}
    (h : TomlValue.OrderedEntries table) (hmem : (key, value) ∈ table) : value.Ordered := by
  induction table with
  | nil => exact absurd hmem List.not_mem_nil
  | cons e rest ih =>
    obtain ⟨key', value'⟩ := e
    rw [TomlValue.OrderedEntries] at h
    rcases List.mem_cons.mp hmem with heq | hmem
    · obtain ⟨rfl, rfl⟩ := Prod.mk.inj heq
      exact h.1
    · exact ih h.2 hmem

theorem section?_mem {root table : TomlTable} {key : String} (h : section? root key = some table) :
    (key, TomlValue.table table) ∈ root := by
  obtain ⟨value, hlookup, htable⟩ := Option.bind_eq_some_iff.mp h
  obtain ⟨before, after, rfl, -⟩ := List.lookup_eq_some_iff.mp hlookup
  cases value with
  | table entries =>
    obtain rfl := Option.some.inj htable
    exact List.mem_append_right before List.mem_cons_self
  | _ => exact nomatch htable

theorem keys_cudaSections_nodup (doc : TomlDocument) :
    ((cudaSections doc.root).map Prod.fst).Nodup := by
  rw [cudaSections]
  cases h : section? doc.root "cuda" with
  | none => exact List.nodup_nil
  | some table =>
    have hordered := OrderedEntries.of_mem doc.ordered.2 (section?_mem h)
    rw [TomlValue.Ordered] at hordered
    have hnodup : (table.map Prod.fst).Nodup := hordered.1.imp fun hlt => ne_of_lt hlt
    exact hnodup.sublist (keys_subTables_sublist table)

def launchSections (root : TomlTable) : Nat :=
  (section? root "cpu").toList.length + (cudaSections root).length +
    (section? root "metal").toList.length + (dwaveSection root).toList.length

/-! ## Devices -/

theorem parseUsize_lt {s : String} {n : Nat} (h : parseUsize s = some n) : n < 2 ^ 64 := by
  unfold parseUsize at h
  dsimp only at h
  split_ifs at h with hfits
  obtain rfl := Option.some.inj h
  rw [Bool.and_eq_true] at hfits
  exact of_decide_eq_true hfits.2

def Indexes (sub : String × TomlTable) (device : Nat × TomlTable) : Prop :=
  parseUsize sub.1 = some device.1 ∧ device.2 = sub.2

theorem toList_insert_fresh {devices : Std.TreeMap Nat TomlTable} {n : Nat}
    (h : devices.contains n = false) (table : TomlTable) :
    (devices.insert n table).toList.Perm ((n, table) :: devices.toList) := by
  have hfilter : devices.toList.filter (fun e => ¬(n == e.1) = true) = devices.toList := by
    apply List.filter_eq_self.mpr
    intro e he
    have hget := Std.TreeMap.mem_toList_iff_getElem?_eq_some.mp he
    apply decide_eq_true
    intro heq
    rw [eq_of_beq heq, Std.TreeMap.contains_eq_isSome_getElem?, hget] at h
    exact nomatch h
  have hperm := Std.TreeMap.toList_insert_perm (t := devices) (k := n) (v := table)
  rwa [hfilter] at hperm

theorem byDevice_cons_none (devices : Std.TreeMap Nat TomlTable) {key : String} {value : TomlValue}
    (h : value.asTable = none) (rest : TomlTable) :
    byDevice devices ((key, value) :: rest) = byDevice devices rest := by
  rw [byDevice, h]

theorem byDevice_cons_some (devices : Std.TreeMap Nat TomlTable) {key : String} {value : TomlValue}
    {sub : TomlTable} (h : value.asTable = some sub) (rest : TomlTable) :
    byDevice devices ((key, value) :: rest) =
      match parseUsize key with
      | none => .error (.cudaSectionNotIndexed key)
      | some n =>
        if devices.contains n then .error (.duplicateCudaDevice n)
        else byDevice (devices.insert n sub) rest := by
  rw [byDevice, h]
  simp only [Std.TreeMap.containsThenInsert_fst, Std.TreeMap.containsThenInsert_snd]

theorem byDevice_ok {devices found : Std.TreeMap Nat TomlTable} {table : TomlTable}
    (h : byDevice devices table = .ok found) :
    ∃ new, List.Forall₂ Indexes (subTables table) new ∧
      found.toList.Perm (devices.toList ++ new) := by
  induction table generalizing devices with
  | nil =>
    obtain rfl := Except.ok.inj h
    exact ⟨[], .nil, by rw [List.append_nil]⟩
  | cons e rest ih =>
    obtain ⟨key, value⟩ := e
    cases hvalue : value.asTable with
    | none =>
      rw [byDevice_cons_none devices hvalue] at h
      rw [subTables_cons_none hvalue]
      exact ih h
    | some sub =>
      rw [byDevice_cons_some devices hvalue] at h
      rw [subTables_cons_some hvalue]
      cases hkey : parseUsize key with
      | none =>
        rw [hkey] at h
        exact nomatch h
      | some n =>
        rw [hkey] at h
        dsimp only at h
        split_ifs at h with htaken
        obtain ⟨new, hindex, hperm⟩ := ih h
        refine ⟨(n, sub) :: new, .cons ⟨hkey, rfl⟩ hindex, hperm.trans ?_⟩
        have hinsert := toList_insert_fresh (Bool.eq_false_of_not_eq_true htaken) sub
        exact (hinsert.append_right new).trans List.perm_middle.symm

theorem byDevice_error {devices : Std.TreeMap Nat TomlTable} {table : TomlTable} {e : ConfigError}
    (h : byDevice devices table = .error e) :
    (∃ sub ∈ subTables table, parseUsize sub.1 = none) ∨
      (∃ sub ∈ subTables table, ∃ n ∈ devices, parseUsize sub.1 = some n) ∨
        ¬(subTables table).Pairwise fun a b => parseUsize a.1 ≠ parseUsize b.1 := by
  induction table generalizing devices with
  | nil => exact nomatch h
  | cons e rest ih =>
    obtain ⟨key, value⟩ := e
    cases hvalue : value.asTable with
    | none =>
      rw [byDevice_cons_none devices hvalue] at h
      rw [subTables_cons_none hvalue]
      exact ih h
    | some sub =>
      rw [byDevice_cons_some devices hvalue] at h
      rw [subTables_cons_some hvalue, List.pairwise_cons]
      cases hkey : parseUsize key with
      | none => exact Or.inl ⟨(key, sub), List.mem_cons_self, hkey⟩
      | some n =>
        rw [hkey] at h
        dsimp only at h
        split_ifs at h with htaken
        · exact Or.inr (Or.inl ⟨(key, sub), List.mem_cons_self, n, htaken, hkey⟩)
        · rcases ih h with ⟨other, hmem, hnone⟩ | ⟨other, hmem, m, hm, hother⟩ | hclash
          · exact Or.inl ⟨other, List.mem_cons_of_mem _ hmem, hnone⟩
          · rcases Std.TreeMap.mem_insert.mp hm with heq | hm
            · have hmn := Std.LawfulEqCmp.eq_of_compare heq
              refine Or.inr (Or.inr fun hpair => hpair.1 other hmem ?_)
              rw [hother, hmn]
            · exact Or.inr (Or.inl ⟨other, List.mem_cons_of_mem _ hmem, m, hm, hother⟩)
          · exact Or.inr (Or.inr fun hpair => hclash hpair.2)

theorem ordinals_of_indexes {subs : List (String × TomlTable)} {devices : List (Nat × TomlTable)}
    (h : List.Forall₂ Indexes subs devices) :
    subs.map (fun sub => parseUsize sub.1) = devices.map fun device => some device.1 := by
  induction h with
  | nil => rfl
  | cons hindex _ ih => rw [List.map_cons, List.map_cons, ih, hindex.1]

/-! ## The plan -/

def HoldsSubTable (root : TomlTable) (backend : String) : Prop :=
  ∃ table, section? root backend = some table ∧ subTables table ≠ []

def Unindexed (root : TomlTable) : Prop :=
  ∃ sub ∈ cudaSections root, parseUsize sub.1 = none

def SharedDevice (root : TomlTable) : Prop :=
  ∃ a ∈ cudaSections root, ∃ b ∈ cudaSections root, a.1 ≠ b.1 ∧
    ∃ n, parseUsize a.1 = some n ∧ parseUsize b.1 = some n

theorem ordinals_pairwise {doc : TomlDocument} (hindexed : ¬Unindexed doc.root)
    (hshared : ¬SharedDevice doc.root) :
    (cudaSections doc.root).Pairwise fun a b => parseUsize a.1 ≠ parseUsize b.1 := by
  have hkeys := keys_cudaSections_nodup doc
  apply hkeys.of_map.pairwise_of_forall_ne
  intro a ha b hb hne heq
  cases hparse : parseUsize a.1 with
  | none => exact hindexed ⟨a, ha, hparse⟩
  | some n =>
    refine hshared ⟨a, ha, b, hb, ?_, n, hparse, heq ▸ hparse⟩
    exact fun hkey => hne (List.inj_on_of_nodup_map hkeys ha hb hkey)

section Plan
variable [TomlWriter]

structure CudaMiner (sub : String × TomlTable) (e : LaunchEntry) : Prop where
  device : ∃ n, parseUsize sub.1 = some n ∧ e.device = some n ∧ e.minerId = cudaId n
  binary : e.binary = entryBinary "cuda" sub.2
  configure : e.configure = makeConfigure sub.2

structure LaunchPlan (root : TomlTable) (launch : List LaunchEntry) : Prop where
  minerIds : (launch.map LaunchEntry.minerId).Nodup
  cuda : ∃ sections, sections.Perm (cudaSections root) ∧
    List.Forall₂ CudaMiner sections (launch.filter fun e => e.backend = "cuda")
  increasing : (launch.filterMap LaunchEntry.device).Pairwise (· < ·)
  others : ∀ e ∈ launch, e.backend ≠ "cuda" → e.device = none

theorem singleDevice_eq_ok {minerId backend : String} {root : TomlTable} {es : List LaunchEntry} :
    singleDevice minerId backend root = .ok es ↔ ¬HoldsSubTable root backend ∧
      es = (section? root backend).toList.map (entry minerId backend none) := by
  rw [singleDevice, HoldsSubTable]
  cases section? root backend with
  | none =>
    constructor
    · intro h
      obtain rfl := Except.ok.inj h
      exact ⟨fun ⟨_, heq, _⟩ => (nomatch heq), rfl⟩
    · intro ⟨_, hes⟩
      rw [hes]
      rfl
  | some table =>
    rw [Except.bind_eq_ok]
    constructor
    · intro ⟨_, hok, hes⟩
      have hnil := rejectIndexed_eq_ok.mp hok
      refine ⟨?_, (Except.ok.inj hes).symm⟩
      intro ⟨table', heq, hne⟩
      obtain rfl := Option.some.inj heq
      exact hne hnil
    · intro ⟨hnone, hes⟩
      have hnil : subTables table = [] := by
        by_contra hne
        exact hnone ⟨table, rfl, hne⟩
      exact ⟨(), rejectIndexed_eq_ok.mpr hnil, by rw [hes]; rfl⟩

theorem cudaEntries_ok {root : TomlTable} {es : List LaunchEntry} (h : cudaEntries root = .ok es) :
    ∃ devices : List (Nat × TomlTable), es = devices.map cudaEntry ∧
      (devices.map Prod.fst).Pairwise (· < ·) ∧
        ∃ new, List.Forall₂ Indexes (cudaSections root) new ∧ devices.Perm new := by
  rw [cudaEntries] at h
  rw [cudaSections]
  cases hsection : section? root "cuda" with
  | none =>
    rw [hsection] at h
    obtain rfl := Except.ok.inj h
    exact ⟨[], rfl, .nil, [], .nil, .nil⟩
  | some table =>
    rw [hsection] at h
    obtain ⟨found, hfound, hes⟩ := Except.bind_eq_ok.mp h
    obtain ⟨new, hindex, hperm⟩ := byDevice_ok hfound
    refine ⟨found.toList, (Except.ok.inj hes).symm, ?_, new, hindex, hperm⟩
    rw [List.pairwise_map]
    exact Std.TreeMap.ordered_keys_toList.imp fun hlt => Nat.compare_eq_lt.mp hlt

theorem not_faulty_of_cudaEntries_ok {root : TomlTable} {es : List LaunchEntry}
    (h : cudaEntries root = .ok es) : ¬Unindexed root ∧ ¬SharedDevice root := by
  obtain ⟨devices, -, hsorted, new, hindex, hperm⟩ := cudaEntries_ok h
  have hordinals := ordinals_of_indexes hindex
  have hdistinct : (devices.map Prod.fst).Nodup := hsorted.imp fun hlt => hlt.ne
  have hnodup : ((cudaSections root).map fun sub => parseUsize sub.1).Nodup := by
    rw [hordinals]
    have hnew := ((hperm.map Prod.fst).nodup_iff.mp hdistinct).map fun _ _ => Option.some.inj
    rwa [List.map_map] at hnew
  constructor
  · intro ⟨sub, hmem, hnone⟩
    have hin := List.mem_map_of_mem (f := fun sub => parseUsize sub.1) hmem
    rw [hordinals, hnone] at hin
    obtain ⟨_, _, heq⟩ := List.mem_map.mp hin
    exact nomatch heq
  · intro ⟨a, ha, b, hb, hne, n, han, hbn⟩
    have heq := List.inj_on_of_nodup_map hnodup ha hb (han.trans hbn.symm)
    exact hne (congrArg Prod.fst heq)

theorem faulty_of_cudaEntries_error {doc : TomlDocument} {e : ConfigError}
    (h : cudaEntries doc.root = .error e) : Unindexed doc.root ∨ SharedDevice doc.root := by
  by_contra hfaulty
  rw [not_or] at hfaulty
  obtain ⟨hindexed, hshared⟩ := hfaulty
  have hpair := ordinals_pairwise hindexed hshared
  rw [cudaEntries] at h
  rw [Unindexed] at hindexed
  rw [cudaSections] at hindexed hpair
  cases hsection : section? doc.root "cuda" with
  | none =>
    rw [hsection] at h
    exact nomatch h
  | some table =>
    rw [hsection] at h hindexed hpair
    dsimp only at h
    cases hfound : byDevice ∅ table with
    | ok found =>
      rw [hfound] at h
      exact nomatch h
    | error e' =>
      rcases byDevice_error hfound with hnone | ⟨_, _, n, hn, _⟩ | hclash
      · exact hindexed hnone
      · exact Std.TreeMap.not_mem_emptyc hn
      · exact hclash hpair

theorem parseLaunch_eq_ok {root : TomlTable} {launch : List LaunchEntry}
    (h : parseLaunch root = .ok launch) :
    ¬HoldsSubTable root "cpu" ∧ ¬HoldsSubTable root "metal" ∧
      ∃ cuda, cudaEntries root = .ok cuda ∧
        launch = (section? root "cpu").toList.map (entry "cpu-0" "cpu" none) ++ cuda ++
          (section? root "metal").toList.map (entry "metal-0" "metal" none) ++
            dwaveEntries root := by
  obtain ⟨cpu, hcpu, h⟩ := Except.bind_eq_ok.mp h
  obtain ⟨cuda, hcuda, h⟩ := Except.bind_eq_ok.mp h
  obtain ⟨metal, hmetal, h⟩ := Except.bind_eq_ok.mp h
  obtain ⟨hnocpu, rfl⟩ := singleDevice_eq_ok.mp hcpu
  obtain ⟨hnometal, rfl⟩ := singleDevice_eq_ok.mp hmetal
  exact ⟨hnocpu, hnometal, cuda, hcuda, (Except.ok.inj h).symm⟩

theorem length_parseLaunch {root : TomlTable} {launch : List LaunchEntry}
    (h : parseLaunch root = .ok launch) : launch.length = launchSections root := by
  obtain ⟨-, -, cuda, hcuda, rfl⟩ := parseLaunch_eq_ok h
  obtain ⟨devices, rfl, -, new, hindex, hperm⟩ := cudaEntries_ok hcuda
  simp only [List.length_append, List.length_map, dwaveEntries, launchSections]
  rw [hperm.length_eq, hindex.length_eq]

theorem mem_parseLaunch {root : TomlTable} {launch : List LaunchEntry} {e : LaunchEntry}
    (h : parseLaunch root = .ok launch) (hmem : e ∈ launch) :
    (∃ single ∈ [("cpu-0", "cpu"), ("metal-0", "metal"), ("qpu-0", "dwave")], ∃ table,
        e = entry single.1 single.2 none table) ∨
      ∃ device : Nat × TomlTable, device.1 < 2 ^ 64 ∧ e = cudaEntry device := by
  obtain ⟨-, -, cuda, hcuda, rfl⟩ := parseLaunch_eq_ok h
  obtain ⟨devices, rfl, -, new, hindex, hperm⟩ := cudaEntries_ok hcuda
  simp only [List.mem_append] at hmem
  rcases hmem with ((he | he) | he) | he
  · obtain ⟨table, -, rfl⟩ := List.mem_map.mp he
    exact Or.inl ⟨("cpu-0", "cpu"), by decide, table, rfl⟩
  · obtain ⟨device, hdevice, rfl⟩ := List.mem_map.mp he
    have hordinal := List.mem_map_of_mem (f := fun d => some d.1) (hperm.mem_iff.mp hdevice)
    rw [← ordinals_of_indexes hindex] at hordinal
    obtain ⟨sub, -, hparse⟩ := List.mem_map.mp hordinal
    exact Or.inr ⟨device, parseUsize_lt hparse, rfl⟩
  · obtain ⟨table, -, rfl⟩ := List.mem_map.mp he
    exact Or.inl ⟨("metal-0", "metal"), by decide, table, rfl⟩
  · obtain ⟨table, -, rfl⟩ := List.mem_map.mp he
    exact Or.inl ⟨("qpu-0", "dwave"), by decide, table, rfl⟩

theorem parseLaunch_ok_of_sound {doc : TomlDocument} (hcpu : ¬HoldsSubTable doc.root "cpu")
    (hmetal : ¬HoldsSubTable doc.root "metal") (hindexed : ¬Unindexed doc.root)
    (hshared : ¬SharedDevice doc.root) : ∃ launch, parseLaunch doc.root = .ok launch := by
  rw [parseLaunch, singleDevice_eq_ok.mpr ⟨hcpu, rfl⟩, singleDevice_eq_ok.mpr ⟨hmetal, rfl⟩]
  cases hcuda : cudaEntries doc.root with
  | ok cuda => exact ⟨_, rfl⟩
  | error e =>
    rcases faulty_of_cudaEntries_error hcuda with h | h
    · exact absurd h hindexed
    · exact absurd h hshared

end Plan

/-! ## One entry for each section -/

theorem cudaId_injective : Function.Injective cudaId := by
  intro m n h
  have hrepr : m.repr = n.repr := (String.append_right_inj "cuda-").mp h
  have hdigits := congrArg (fun s => Nat.ofDigitChars 10 (String.toList s) 0) hrepr
  simpa only [Nat.toList_repr, Nat.ofDigitChars_ten_toDigits] using hdigits

theorem cudaId_not_single (n : Nat) : cudaId n ∉ ["cpu-0", "metal-0", "qpu-0"] := by
  have htake : (cudaId n).toList.take 2 = ['c', 'u'] := by
    rw [cudaId, String.toList_append]
    rfl
  intro h
  have hmem := List.mem_map_of_mem (f := fun s => String.toList s |>.take 2) h
  rw [htake] at hmem
  revert hmem
  decide

section Entries
variable [TomlWriter]

theorem minerIds_single_sublist (minerId backend : String) (table : Option TomlTable) :
    ((table.toList.map (entry minerId backend none)).map LaunchEntry.minerId).Sublist [minerId] := by
  cases table with
  | none => exact List.nil_sublist _
  | some table => exact List.Sublist.refl _

theorem minerIds_nodup (cpu metal dwave : Option TomlTable) {devices : List (Nat × TomlTable)}
    (h : (devices.map Prod.fst).Pairwise (· < ·)) :
    ((cpu.toList.map (entry "cpu-0" "cpu" none) ++ devices.map cudaEntry ++
      metal.toList.map (entry "metal-0" "metal" none) ++
        dwave.toList.map (entry "qpu-0" "dwave" none)).map LaunchEntry.minerId).Nodup := by
  have hdevices : ((devices.map cudaEntry).map LaunchEntry.minerId).Nodup := by
    have hkeys : (devices.map Prod.fst).Nodup := h.imp fun hlt => hlt.ne
    have hids := hkeys.map cudaId_injective
    rw [List.map_map] at hids ⊢
    exact hids
  have hsingle : ∀ minerId ∈ ["cpu-0", "metal-0", "qpu-0"],
      minerId ∉ (devices.map cudaEntry).map LaunchEntry.minerId := by
    intro minerId hmem hin
    rw [List.map_map] at hin
    obtain ⟨device, -, rfl⟩ := List.mem_map.mp hin
    exact cudaId_not_single device.1 hmem
  have hall : (["cpu-0"] ++ (devices.map cudaEntry).map LaunchEntry.minerId ++ ["metal-0"] ++
      ["qpu-0"]).Nodup := by
    generalize (devices.map cudaEntry).map LaunchEntry.minerId = ids at hdevices hsingle
    have hcpu := hsingle "cpu-0" (by decide)
    have hmetal := hsingle "metal-0" (by decide)
    have hqpu := hsingle "qpu-0" (by decide)
    rw [List.append_assoc, List.append_assoc, List.singleton_append, List.nodup_cons]
    constructor
    · simp [hcpu]
    · refine hdevices.append (by decide) ?_
      intro id hid hlast
      rcases List.mem_pair.mp hlast with rfl | rfl
      · exact hmetal hid
      · exact hqpu hid
  refine hall.sublist ?_
  rw [List.map_append, List.map_append, List.map_append]
  exact (((minerIds_single_sublist _ _ cpu).append (List.Sublist.refl _)).append
    (minerIds_single_sublist _ _ metal)).append (minerIds_single_sublist _ _ dwave)

theorem filter_cuda_single {minerId backend : String} (h : backend ≠ "cuda")
    (table : Option TomlTable) :
    (table.toList.map (entry minerId backend none)).filter (fun e => e.backend = "cuda") = [] := by
  apply List.filter_eq_nil_iff.mpr
  intro e he
  obtain ⟨_, _, rfl⟩ := List.mem_map.mp he
  exact fun hcuda => h (of_decide_eq_true hcuda)

theorem filter_cudaEntry (devices : List (Nat × TomlTable)) :
    (devices.map cudaEntry).filter (fun e => e.backend = "cuda") = devices.map cudaEntry := by
  apply List.filter_eq_self.mpr
  intro e he
  obtain ⟨_, _, rfl⟩ := List.mem_map.mp he
  exact decide_eq_true rfl

theorem device_single (minerId backend : String) (table : Option TomlTable) :
    (table.toList.map (entry minerId backend none)).filterMap LaunchEntry.device = [] := by
  cases table <;> rfl

theorem device_cudaEntry (devices : List (Nat × TomlTable)) :
    (devices.map cudaEntry).filterMap LaunchEntry.device = devices.map Prod.fst := by
  rw [List.filterMap_map, ← List.filterMap_eq_map]
  rfl

theorem CudaMiner.of_indexes {sub : String × TomlTable} {device : Nat × TomlTable}
    (h : Indexes sub device) : CudaMiner sub (cudaEntry device) where
  device := ⟨device.1, h.1, rfl, rfl⟩
  binary := congrArg (entryBinary "cuda") h.2
  configure := congrArg makeConfigure h.2

theorem launchPlan_of_parse {root : TomlTable} {launch : List LaunchEntry}
    (h : parseLaunch root = .ok launch) : LaunchPlan root launch := by
  obtain ⟨-, -, cuda, hcuda, rfl⟩ := parseLaunch_eq_ok h
  obtain ⟨devices, rfl, hsorted, new, hindex, hperm⟩ := cudaEntries_ok hcuda
  -- the sections in the order of their devices
  obtain ⟨sections, hsections, hforall⟩ :
      Relation.Comp List.Perm (List.Forall₂ Indexes) (cudaSections root) devices := by
    rw [← List.forall₂_comp_perm_eq_perm_comp_forall₂]
    exact ⟨new, hindex, hperm.symm⟩
  rw [dwaveEntries]
  constructor
  · exact minerIds_nodup _ _ _ hsorted
  · refine ⟨sections, hsections.symm, ?_⟩
    rw [List.filter_append, List.filter_append, List.filter_append,
      filter_cuda_single (by decide), filter_cuda_single (by decide),
      filter_cuda_single (by decide), filter_cudaEntry, List.nil_append, List.append_nil,
      List.append_nil, List.forall₂_map_right_iff]
    exact hforall.imp fun _ _ => CudaMiner.of_indexes
  · rw [List.filterMap_append, List.filterMap_append, List.filterMap_append, device_single,
      device_single, device_single, device_cudaEntry, List.nil_append, List.append_nil,
      List.append_nil]
    exact hsorted
  · intro e he hne
    simp only [List.mem_append] at he
    rcases he with ((he | he) | he) | he
    · obtain ⟨_, _, rfl⟩ := List.mem_map.mp he
      rfl
    · obtain ⟨_, _, rfl⟩ := List.mem_map.mp he
      exact absurd rfl hne
    all_goals
      obtain ⟨_, _, rfl⟩ := List.mem_map.mp he
      rfl

theorem parse_launch_plan (doc : TomlDocument) :
    ((∃ e, parseLaunch doc.root = .error e) ↔
      HoldsSubTable doc.root "cpu" ∨ HoldsSubTable doc.root "metal" ∨ Unindexed doc.root ∨
        SharedDevice doc.root) ∧
    ∀ launch, parseLaunch doc.root = .ok launch → LaunchPlan doc.root launch := by
  refine ⟨⟨?_, ?_⟩, fun launch => launchPlan_of_parse⟩
  · intro ⟨e, he⟩
    by_contra hsound
    simp only [not_or] at hsound
    obtain ⟨hcpu, hmetal, hindexed, hshared⟩ := hsound
    obtain ⟨launch, hlaunch⟩ := parseLaunch_ok_of_sound hcpu hmetal hindexed hshared
    rw [hlaunch] at he
    exact nomatch he
  · intro hfaulty
    cases hparse : parseLaunch doc.root with
    | error e => exact ⟨e, rfl⟩
    | ok launch =>
      obtain ⟨hcpu, hmetal, cuda, hcuda, -⟩ := parseLaunch_eq_ok hparse
      obtain ⟨hindexed, hshared⟩ := not_faulty_of_cudaEntries_ok hcuda
      rcases hfaulty with h | h | h | h
      · exact absurd h hcpu
      · exact absurd h hmetal
      · exact absurd h hindexed
      · exact absurd h hshared

end Entries

/-- Sub-tables without a key: `toml::to_string` writes the empty text for them. -/
@[reducible] def emptySections : TomlWriter where
  toString table := if table.isEmpty then some "" else none

theorem orderedEntries_empty (keys : List String) :
    TomlValue.OrderedEntries (keys.map fun key => (key, .table [])) := by
  induction keys with
  | nil => trivial
  | cons key keys ih => exact ⟨⟨List.Pairwise.nil, trivial⟩, ih⟩

def cudaDocument (keys : List String) (h : keys.Pairwise fun a b => a.toList < b.toList) :
    TomlDocument where
  root := [("cuda", .table (keys.map fun key => (key, .table [])))]
  ordered := by
    refine ⟨List.pairwise_singleton _ _, ⟨?_, orderedEntries_empty keys⟩, trivial⟩
    rw [List.map_map, List.pairwise_map]
    exact h.imp fun hlt => String.lt_iff_toList_lt.mpr hlt

def twoDevices : TomlDocument := cudaDocument ["10", "2"] (by decide)

theorem parse_launch_plan_two_devices :
    ∃ launch, @parseLaunch emptySections twoDevices.root = .ok launch ∧
      launch.map LaunchEntry.minerId = ["cuda-2", "cuda-10"] ∧
        @LaunchPlan emptySections twoDevices.root launch :=
  ⟨_, rfl, rfl, (@parse_launch_plan emptySections twoDevices).2 _ rfl⟩

end Config
end QuipCoordinator
