import QuipCoordinator.LaunchPlan
import QuipCoordinator.Survey

/-!
# The node descriptor

`buildDescriptorPayload` puts the identity keys, the endpoints, the launch plan and
the host survey into the payload of `set_descriptor`. The pallet bounds every field
of it. The name, the node id, the host, the endpoints and the survey are each checked
on the way, but the number of miners is not: a plan of more than sixteen sections is
filed as it is. The SS58 text of an account is a parameter.
-/

namespace QuipCoordinator
namespace Descriptor
open Config Survey
open ListSource (trim)

def maxNodeIdBytes : Nat := 64
def maxNodeNameBytes : Nat := 64
def maxPublicHostBytes : Nat := 253
def maxRpcEndpointBytes : Nat := 256
def maxRpcEndpoints : Nat := 8
def maxMinerSpecs : Nat := 16
def maxMinerLabelBytes : Nat := 64
def maxMinerBackendBytes : Nat := 32
def maxMinerDeviceIdBytes : Nat := 128

class Ss58 where
  toSs58check : Bytes32 → String

inductive MinerKind
  | cpu
  | gpu
  | qpuDwave
  | qpuIbm
  | qpuIonq
  | qpuPasqal
  | asic
  | metal
deriving DecidableEq

inductive NodeLogLevel
  | debug
  | info
  | warning
  | error
deriving DecidableEq

structure MinerSpecScale where
  kind : MinerKind
  label : Option Bytes
  backend : Option Bytes
  deviceId : Option Bytes
deriving DecidableEq

structure CoordinatorConfig where
  validators : List String
  launch : List LaunchEntry
  nodeId : Option String
  nodeName : Option String
  publicHost : String
  publicPort : Nat
  autoMine : Bool
  nodeLogLevel : NodeLogLevel

structure DescriptorParams where
  nodeId : Option String
  nodeName : Option String
  publicHost : Option String
  publicPort : Option Nat
  autoMine : Bool
  logLevel : NodeLogLevel
  rpcEndpoints : List String
  miners : List MinerSpecScale
  systemInfo : Option SystemInfoScale
  runtime : Option RuntimeInfoScale

structure NodeDescriptorV2Input where
  nodeId : Bytes
  nodeName : Bytes
  publicHost : Option Bytes
  publicPort : Option Nat
  rpcEndpoints : List Bytes
  autoMine : Bool
  logLevel : NodeLogLevel
  miners : List MinerSpecScale
  systemInfo : Option SystemInfoScale
  runtime : Option RuntimeInfoScale
deriving DecidableEq

def bytesOf (s : String) : Bytes := encodeUtf8 s.toList

def minerKindFromBackend (backend : String) : MinerKind :=
  if backend = "cuda" then .gpu
  else if backend = "metal" then .metal
  else if backend = "dwave" then .qpuDwave
  else .cpu

def minerSpec (e : LaunchEntry) : MinerSpecScale where
  kind := minerKindFromBackend e.backend
  label := some (bytesOf e.minerId)
  backend := some (bytesOf e.backend)
  deviceId := e.device.map fun n => bytesOf (toString n)

def fromConfig (cfg : CoordinatorConfig) : DescriptorParams where
  nodeId := cfg.nodeId
  nodeName := cfg.nodeName
  publicHost := some cfg.publicHost
  publicPort := some cfg.publicPort
  autoMine := cfg.autoMine
  logLevel := cfg.nodeLogLevel
  rpcEndpoints := cfg.validators
  miners := cfg.launch.map minerSpec
  systemInfo := none
  runtime := none

def DescriptorParams.withSurvey (params : DescriptorParams) :
    Option HostSurvey → DescriptorParams
  | none => params
  | some surveyed =>
    { params with systemInfo := some surveyed.system, runtime := some surveyed.runtime }

def nodeIdFromAccount (account : Bytes32) : List Char :=
  account.toList.flatMap fun b => [Nat.digitChar (b.toNat / 16), Nat.digitChar (b.toNat % 16)]

def trimmed (setting : Option String) : Option (List Char) :=
  (setting.map fun s => trim s.toList).filter (!·.isEmpty)

def rpcEndpointsOf (endpoints : List String) : List Bytes :=
  (endpoints.take maxRpcEndpoints).filterMap fun endpoint =>
    let endpoint := trim endpoint.toList
    if endpoint.isEmpty || maxRpcEndpointBytes < utf8Len endpoint then none
    else some (encodeUtf8 endpoint)

section Payload
variable [Ss58]

def nodeNameOf (params : DescriptorParams) (account : Bytes32) : List Char :=
  (trimmed params.nodeName).getD (Ss58.toSs58check account).toList

def nodeIdOf (params : DescriptorParams) (account : Bytes32) : List Char :=
  (trimmed params.nodeId).getD (nodeIdFromAccount account)

def buildDescriptorPayload (params : DescriptorParams) (account : Bytes32) :
    Option NodeDescriptorV2Input :=
  let name := nodeNameOf params account
  let nodeId := nodeIdOf params account
  let host := trimmed params.publicHost
  if maxNodeNameBytes < utf8Len name then none
  else if nodeId.isEmpty || maxNodeIdBytes < utf8Len nodeId then none
  else if params.miners.isEmpty then none
  else if host.any fun host => maxPublicHostBytes < utf8Len host then none
  else some
    { nodeId := encodeUtf8 nodeId
      nodeName := encodeUtf8 name
      publicHost := host.map encodeUtf8
      publicPort := params.publicPort.filter (0 < ·)
      rpcEndpoints := rpcEndpointsOf params.rpcEndpoints
      autoMine := params.autoMine
      logLevel := params.logLevel
      miners := params.miners
      systemInfo := params.systemInfo.filter fitsPalletBounds
      runtime := params.runtime.filter runtimeFitsPalletBounds }

end Payload

/-! ## The bounds of the pallet -/

structure FitsMinerSpec (spec : MinerSpecScale) : Prop where
  label : ∀ label ∈ spec.label, label.length ≤ maxMinerLabelBytes
  backend : ∀ backend ∈ spec.backend, backend.length ≤ maxMinerBackendBytes
  deviceId : ∀ deviceId ∈ spec.deviceId, deviceId.length ≤ maxMinerDeviceIdBytes

structure WithinPalletBounds (p : NodeDescriptorV2Input) : Prop where
  nodeId : p.nodeId ≠ [] ∧ p.nodeId.length ≤ maxNodeIdBytes
  nodeName : p.nodeName ≠ [] ∧ p.nodeName.length ≤ maxNodeNameBytes
  publicHost : ∀ host ∈ p.publicHost, host.length ≤ maxPublicHostBytes
  rpcEndpoints : p.rpcEndpoints.length ≤ maxRpcEndpoints ∧
    ∀ endpoint ∈ p.rpcEndpoints, endpoint.length ≤ maxRpcEndpointBytes
  miners : p.miners ≠ [] ∧ p.miners.length ≤ maxMinerSpecs
  minerSpecs : ∀ spec ∈ p.miners, FitsMinerSpec spec
  systemInfo : ∀ info ∈ p.systemInfo, fitsPalletBounds info = true
  runtime : ∀ info ∈ p.runtime, runtimeFitsPalletBounds info = true

/-! ## Lengths of texts -/

theorem encodeUtf8_ne_nil {s : List Char} (h : s ≠ []) : encodeUtf8 s ≠ [] := by
  intro hnil
  have hlen := length_encodeUtf8 s
  rw [hnil, List.length_nil] at hlen
  cases s with
  | nil => exact h rfl
  | cons c s =>
    rw [utf8Len, List.map_cons, List.sum_cons] at hlen
    have hpos := c.utf8Size_pos
    omega

theorem utf8Len_ascii {s : List Char} (h : ∀ c ∈ s, c.utf8Size = 1) : utf8Len s = s.length := by
  rw [utf8Len, List.map_congr_left h, List.map_const', List.sum_replicate_nat,
    Nat.mul_one]

theorem utf8Size_digit {c : Char} (h : c.isDigit = true) : c.utf8Size = 1 := by
  rw [Char.isDigit, Bool.and_eq_true, decide_eq_true_eq, decide_eq_true_eq] at h
  rw [Char.utf8Size_eq_one_iff]
  exact UInt32.le_trans h.2 (by decide)

theorem length_bytesOf_toString {n : Nat} (h : n < 2 ^ 64) :
    (bytesOf (toString n)).length ≤ 20 := by
  have hascii : ∀ c ∈ Nat.toDigits 10 n, c.utf8Size = 1 := by
    intro c hc
    exact utf8Size_digit (Nat.isDigit_of_mem_toDigits (by decide) (by decide) hc)
  rw [bytesOf, length_encodeUtf8, Nat.toString_eq_repr, Nat.toList_repr, utf8Len_ascii hascii,
    Nat.length_toDigits_le_iff (by decide) (by decide)]
  exact h.trans (by decide)

theorem length_bytesOf_cudaId {n : Nat} (h : n < 2 ^ 64) : (bytesOf (cudaId n)).length ≤ 25 := by
  have hdigits := length_bytesOf_toString h
  rw [bytesOf, length_encodeUtf8, utf8Len] at hdigits ⊢
  rw [cudaId, String.toList_append, List.map_append, List.sum_append]
  exact Nat.add_le_add_left hdigits 5

theorem digitChar_ascii : ∀ n < 16, (Nat.digitChar n).utf8Size = 1 := by decide

theorem utf8Len_nodeIdFromAccount (account : Bytes32) :
    utf8Len (nodeIdFromAccount account) = 64 := by
  rw [utf8Len_ascii]
  · simp [nodeIdFromAccount, List.length_flatMap]
  · intro c hc
    obtain ⟨b, -, hmem⟩ := List.mem_flatMap.mp hc
    have hb := b.toNat_lt
    rcases List.mem_pair.mp hmem with rfl | rfl
    · exact digitChar_ascii _ (by omega)
    · exact digitChar_ascii _ (by omega)

theorem nodeIdFromAccount_ne_nil (account : Bytes32) : nodeIdFromAccount account ≠ [] := by
  intro h
  have hlen := utf8Len_nodeIdFromAccount account
  rw [h] at hlen
  exact nomatch hlen

theorem trimmed_ne_nil {setting : Option String} {s : List Char} (h : s ∈ trimmed setting) :
    s ≠ [] := by
  have hfilter := (Option.filter_eq_some_iff.mp (Option.mem_def.mp h)).2
  simpa using hfilter

/-! ## Fields of a filed payload -/

theorem fitsMinerSpec_of_launch [TomlWriter] {root : TomlTable} {launch : List LaunchEntry}
    (h : parseLaunch root = .ok launch) {spec : MinerSpecScale}
    (hspec : spec ∈ launch.map minerSpec) : FitsMinerSpec spec := by
  obtain ⟨e, he, rfl⟩ := List.mem_map.mp hspec
  rcases mem_parseLaunch h he with ⟨single, hsingle, table, rfl⟩ | ⟨device, hlt, rfl⟩
  · have hnames : ∀ single ∈ [("cpu-0", "cpu"), ("metal-0", "metal"), ("qpu-0", "dwave")],
        (bytesOf single.1).length ≤ maxMinerLabelBytes ∧
          (bytesOf single.2).length ≤ maxMinerBackendBytes := by decide
    obtain ⟨hlabel, hbackend⟩ := hnames single hsingle
    constructor
    · rintro _ ⟨rfl⟩
      exact hlabel
    · rintro _ ⟨rfl⟩
      exact hbackend
    · intro _ hnone
      exact nomatch hnone
  · constructor
    · rintro _ ⟨rfl⟩
      exact (length_bytesOf_cudaId hlt).trans (by decide)
    · rintro _ ⟨rfl⟩
      exact (by decide : (bytesOf "cuda").length ≤ maxMinerBackendBytes)
    · rintro _ ⟨rfl⟩
      exact (length_bytesOf_toString hlt).trans (by decide)

theorem rpcEndpointsOf_fit (endpoints : List String) :
    (rpcEndpointsOf endpoints).length ≤ maxRpcEndpoints ∧
      ∀ endpoint ∈ rpcEndpointsOf endpoints, endpoint.length ≤ maxRpcEndpointBytes := by
  constructor
  · exact (List.length_filterMap_le _ _).trans (List.length_take_le _ _)
  · intro endpoint hmem
    obtain ⟨text, -, hsome⟩ := List.mem_filterMap.mp hmem
    dsimp only at hsome
    split_ifs at hsome with hdrop
    obtain rfl := Option.some.inj hsome
    rw [Bool.not_eq_true, Bool.or_eq_false_iff, decide_eq_false_iff_not, Nat.not_lt] at hdrop
    rw [length_encodeUtf8]
    exact hdrop.2

theorem miners_withSurvey (cfg : CoordinatorConfig) (survey : Option HostSurvey) :
    ((fromConfig cfg).withSurvey survey).miners = cfg.launch.map minerSpec := by
  cases survey <;> rfl

theorem nodeIdOf_ne_nil (params : DescriptorParams) (account : Bytes32) :
    nodeIdOf params account ≠ [] := by
  rw [nodeIdOf]
  cases h : trimmed params.nodeId with
  | none => exact nodeIdFromAccount_ne_nil account
  | some s => exact trimmed_ne_nil (Option.mem_def.mpr h)

section Build
variable [Ss58]

def Refused (params : DescriptorParams) (account : Bytes32) : Prop :=
  maxNodeNameBytes < utf8Len (nodeNameOf params account) ∨
    maxNodeIdBytes < utf8Len (nodeIdOf params account) ∨
      ∃ host ∈ trimmed params.publicHost, maxPublicHostBytes < utf8Len host

theorem nodeNameOf_ne_nil (hss58 : ∀ account, Ss58.toSs58check account ≠ "")
    (params : DescriptorParams) (account : Bytes32) : nodeNameOf params account ≠ [] := by
  rw [nodeNameOf]
  cases h : trimmed params.nodeName with
  | none =>
    intro hnil
    exact hss58 account (String.toList_eq_nil_iff.mp hnil)
  | some s => exact trimmed_ne_nil (Option.mem_def.mpr h)

theorem refused_of_build_none {params : DescriptorParams} {account : Bytes32}
    (h : buildDescriptorPayload params account = none) :
    Refused params account ∨ params.miners = [] := by
  unfold buildDescriptorPayload at h
  dsimp only at h
  split_ifs at h with hname hid hminers hhost
  · exact Or.inl (Or.inl hname)
  · rw [Bool.or_eq_true, List.isEmpty_iff, decide_eq_true_eq] at hid
    exact Or.inl (Or.inr (Or.inl (hid.resolve_left (nodeIdOf_ne_nil params account))))
  · exact Or.inr (List.isEmpty_iff.mp hminers)
  · obtain ⟨host, hmem, hlong⟩ := (Option.any_eq_true _ _).mp hhost
    exact Or.inl (Or.inr (Or.inr ⟨host, hmem, of_decide_eq_true hlong⟩))

structure FiledFrom (params : DescriptorParams) (account : Bytes32) (p : NodeDescriptorV2Input) :
    Prop where
  kept : ¬Refused params account
  nodeId : p.nodeId = encodeUtf8 (nodeIdOf params account)
  nodeName : p.nodeName = encodeUtf8 (nodeNameOf params account)
  publicHost : p.publicHost = (trimmed params.publicHost).map encodeUtf8
  rpcEndpoints : p.rpcEndpoints = rpcEndpointsOf params.rpcEndpoints
  miners : p.miners = params.miners ∧ params.miners ≠ []
  systemInfo : p.systemInfo = params.systemInfo.filter fitsPalletBounds
  runtime : p.runtime = params.runtime.filter runtimeFitsPalletBounds

theorem filedFrom_of_build {params : DescriptorParams} {account : Bytes32}
    {p : NodeDescriptorV2Input} (h : buildDescriptorPayload params account = some p) :
    FiledFrom params account p := by
  unfold buildDescriptorPayload at h
  dsimp only at h
  split_ifs at h with hname hid hminers hhost
  obtain rfl := Option.some.inj h
  refine ⟨?_, rfl, rfl, rfl, rfl, ⟨rfl, ?_⟩, rfl, rfl⟩
  · rintro (hlong | hlong | ⟨host, hmem, hlong⟩)
    · exact hname hlong
    · exact hid (Bool.or_eq_true_iff.mpr (Or.inr (decide_eq_true hlong)))
    · exact hhost ((Option.any_eq_true _ _).mpr ⟨host, hmem, decide_eq_true hlong⟩)
  · exact fun hnil => hminers (List.isEmpty_iff.mpr hnil)

theorem within_of_filed (hss58 : ∀ account, Ss58.toSs58check account ≠ "")
    {params : DescriptorParams} {account : Bytes32} {p : NodeDescriptorV2Input}
    (h : FiledFrom params account p) (hcount : params.miners.length ≤ maxMinerSpecs)
    (hspecs : ∀ spec ∈ params.miners, FitsMinerSpec spec) : WithinPalletBounds p := by
  have hkept := h.kept
  simp only [Refused, not_or, Nat.not_lt, not_exists, not_and] at hkept
  obtain ⟨hname, hid, hhost⟩ := hkept
  constructor
  · rw [h.nodeId, length_encodeUtf8]
    exact ⟨encodeUtf8_ne_nil (nodeIdOf_ne_nil params account), hid⟩
  · rw [h.nodeName, length_encodeUtf8]
    exact ⟨encodeUtf8_ne_nil (nodeNameOf_ne_nil hss58 params account), hname⟩
  · intro host hmem
    rw [h.publicHost] at hmem
    obtain ⟨text, htext, rfl⟩ := Option.map_eq_some_iff.mp hmem
    rw [length_encodeUtf8]
    exact hhost text htext
  · rw [h.rpcEndpoints]
    exact rpcEndpointsOf_fit params.rpcEndpoints
  · rw [h.miners.1]
    exact ⟨h.miners.2, hcount⟩
  · rw [h.miners.1]
    exact hspecs
  · intro info hinfo
    rw [h.systemInfo] at hinfo
    exact (Option.filter_eq_some_iff.mp hinfo).2
  · intro info hinfo
    rw [h.runtime] at hinfo
    exact (Option.filter_eq_some_iff.mp hinfo).2

theorem filed_descriptor_fits_iff [TomlWriter] (hss58 : ∀ account, Ss58.toSs58check account ≠ "")
    (doc : TomlDocument) (cfg : CoordinatorConfig) (hlaunch : parseLaunch doc.root = .ok cfg.launch)
    (survey : Option HostSurvey) (account : Bytes32) :
    (∀ p, buildDescriptorPayload ((fromConfig cfg).withSurvey survey) account = some p →
      WithinPalletBounds p) ↔
      launchSections doc.root ≤ maxMinerSpecs ∨
        Refused ((fromConfig cfg).withSurvey survey) account := by
  have hminers := miners_withSurvey cfg survey
  have hcount : ((fromConfig cfg).withSurvey survey).miners.length = launchSections doc.root := by
    rw [hminers, List.length_map, length_parseLaunch hlaunch]
  constructor
  · intro hall
    cases hbuild : buildDescriptorPayload ((fromConfig cfg).withSurvey survey) account with
    | none =>
      rcases refused_of_build_none hbuild with hrefused | hnil
      · exact Or.inr hrefused
      · rw [hnil, List.length_nil] at hcount
        exact Or.inl (hcount ▸ Nat.zero_le _)
    | some p =>
      have hbound := (hall p hbuild).miners.2
      rw [(filedFrom_of_build hbuild).miners.1, hcount] at hbound
      exact Or.inl hbound
  · intro hcond p hbuild
    have hfiled := filedFrom_of_build hbuild
    have hle := hcond.resolve_right hfiled.kept
    apply within_of_filed hss58 hfiled (hcount ▸ hle)
    intro spec hspec
    rw [hminers] at hspec
    exact fitsMinerSpec_of_launch hlaunch hspec

end Build

/-! ## Two devices and seventeen -/

def sampleAccount : Bytes32 := Vector.replicate 32 0xab

def sampleAddress : String := "5Fwo3QRR77JrxbjWi12sbWdZvJgM9ETUBM8imfFk1wAKouXw"

@[reducible] def sampleSs58 : Ss58 where
  toSs58check _ := sampleAddress

def sampleConfig (launch : List LaunchEntry) : CoordinatorConfig where
  validators := ["ws://quip-validator:9944"]
  launch := launch
  nodeId := none
  nodeName := none
  publicHost := "203.0.113.10"
  publicPort := 20050
  autoMine := true
  nodeLogLevel := .info

def launchOf (root : TomlTable) : List LaunchEntry :=
  match @parseLaunch emptySections root with
  | .ok launch => launch
  | .error _ => []

theorem two_devices_fit :
    ∃ p, @buildDescriptorPayload sampleSs58
        ((fromConfig (sampleConfig (launchOf twoDevices.root))).withSurvey none) sampleAccount =
          some p ∧ WithinPalletBounds p := by
  have hss58 : ∀ account, sampleSs58.toSs58check account ≠ "" :=
    fun _ => (by decide : sampleAddress ≠ "")
  have hfits := (@filed_descriptor_fits_iff sampleSs58 emptySections hss58 twoDevices
    (sampleConfig (launchOf twoDevices.root)) rfl none sampleAccount).mpr (Or.inl (by decide))
  exact ⟨_, rfl, hfits _ rfl⟩

def seventeenDevices : TomlDocument :=
  cudaDocument ["0", "1", "10", "11", "12", "13", "14", "15", "16", "2", "3", "4", "5", "6", "7",
    "8", "9"] (by decide)

theorem seventeen_devices_exceed :
    ∃ p, @parseLaunch emptySections seventeenDevices.root =
        .ok (sampleConfig (launchOf seventeenDevices.root)).launch ∧
      @buildDescriptorPayload sampleSs58
        ((fromConfig (sampleConfig (launchOf seventeenDevices.root))).withSurvey none)
          sampleAccount = some p ∧ ¬WithinPalletBounds p :=
  ⟨_, rfl, rfl, fun h => absurd h.miners.2 (by decide)⟩

end Descriptor
end QuipCoordinator
