import QuipCoordinator.FoundationFiles
import QuipCoordinator.FoundationJson
import QuipCoordinator.StorageKeys

/-!
# Keystores

A keystore is a file with a master seed in hex. `keygen` makes the directories of its path
and writes the file, never over one that is there, also when another program makes it
between the check and the open. A signer key names a keystore, spells a seed or is a
secret URI, in this order. The key derivations and the JSON reader are parameters.
-/

namespace QuipCoordinator

open Files
open Json (Value)

inductive SecretStringError
  | invalidFormat (uri : String)
  | invalidPhrase
  | invalidPassword
  | invalidSeed
  | invalidSeedLength
  | invalidPath
deriving DecidableEq

def secretUriErrorKind : SecretStringError → String
  | .invalidFormat _ => "invalid format"
  | .invalidPhrase => "invalid phrase"
  | .invalidPassword => "invalid password"
  | .invalidSeed => "invalid seed"
  | .invalidSeedLength => "invalid seed length"
  | .invalidPath => "invalid path"

/-- `HybridPair` and `serde_json` as `load_hybrid_pair` calls them. -/
structure KeyReader (π : Type) where
  fromSeed : Bytes32 → π
  fromString : String → Except SecretStringError π
  fromStr : String → Except String Value

-- `copy_from_slice`, of 32 bytes
def copySeed (bytes : Bytes) : Bytes32 := Vector.ofFn fun i => bytes.getD i.val 0

theorem copySeed_toList (seed : Bytes32) : copySeed seed.toList = seed := by
  ext i hi
  simp [copySeed, List.getD]

def masterSeed (v : Value) : Except String Bytes32 :=
  match (v.get "master_seed_hex").bind Value.asStr with
  | none => .error "keystore missing master_seed_hex"
  | some seedHex => do
    let seedBytes ← hexDecode seedHex
    if seedBytes.length ≠ 32 then
      .error s!"master_seed must be 32 bytes, got {seedBytes.length}"
    else pure (copySeed seedBytes)

def uriErrorText (kind : String) : String :=
  "signer_key is not an existing keystore file, a 32-byte hex seed, or a valid secret URI: " ++ kind

section
variable {π : Type} (reader : KeyReader π)

def loadKeystore (text : String) : Except String π :=
  ((reader.fromStr text).mapError ("keystore json: " ++ ·)).bind fun v =>
    (masterSeed v).map reader.fromSeed

end

/-- `hex_body.len() == 64`, all hex digits. -/
def spellsSeed (hexBody : List Char) : Bool :=
  (Hex.utf8 hexBody).length == 64 && hexBody.all fun c => (Hex.value c).isSome

theorem spellsSeed_iff {hexBody : List Char} :
    spellsSeed hexBody = true ↔ (Hex.utf8 hexBody).length = 64 ∧ ∀ c ∈ hexBody, Hex.IsDigit c := by
  simp [spellsSeed, Hex.IsDigit]

section
variable {π : Type} (reader : KeyReader π) (disk : Disk)

def loadHybridPair (signerKey : String) : Except String π :=
  match disk.find signerKey with
  | some entry => entry.read.bind (loadKeystore reader)
  | none =>
    let hexBody := stripHexPrefix signerKey
    if spellsSeed hexBody then
      (hexDecode (String.ofList hexBody)).map fun seedBytes => reader.fromSeed (copySeed seedBytes)
    else
      (reader.fromString signerKey).mapError fun e => uriErrorText (secretUriErrorKind e)

end

/-! ## Writing -/

inductive KeygenError
  | alreadyExists (out : Path)
  | io (error : String)
  | random (error : String)
deriving DecidableEq

def seedToHex (seed : Bytes32) : String := String.ofList (Hex.encode seed.toList)

def keystoreBody (seedHex : String) : String :=
  "\x7b\"master_seed_hex\":\"" ++ seedHex ++ "\"\x7d\n"

/-- What the host answers to a run of `keygen`: a write that fails may leave any text. -/
structure KeygenHost where
  mkdir : Path → Except String Unit
  seed : Except String Bytes32
  opened : Except String Unit
  torn : Option (String × String)

/-- The open with `create_new`, and the write. -/
def createNew (out : Path) (disk : Disk) (host : KeygenHost) (body : String) :
    Disk × Except KeygenError Unit :=
  if (disk out).isSome then (disk, .error (.alreadyExists out))
  else
    match host.opened with
    | .error e => (disk, .error (.io e))
    | .ok () =>
      match host.torn with
      | some (text, e) => (Function.update disk out (some (.file (.ok text))), .error (.io e))
      | none => (Function.update disk out (some (.file (.ok body))), .ok ())

/-- The disk once the directories are made and the one that is left. -/
structure KeygenRun where
  made : Disk
  left : Disk
  result : Except KeygenError Unit

/-- `seen` is the disk at the check and `disk` the one that the directories are made on. What the
other programs do up to the open is `others`. -/
def writeKeystore (out : Path) (seen disk : Disk) (others : Disk → Disk) (host : KeygenHost) :
    KeygenRun :=
  if (seen out).isSome then ⟨disk, others disk, .error (.alreadyExists out)⟩
  else
    match createDirAll host.mkdir out.parents disk with
    | (made, .error e) => ⟨made, others made, .error (.io e)⟩
    | (made, .ok ()) =>
      match host.seed with
      | .error e => ⟨made, others made, .error (.random e)⟩
      | .ok seed =>
        let (left, result) := createNew out (others made) host (keystoreBody (seedToHex seed))
        ⟨made, left, result⟩

theorem createNew_apply (out : Path) (disk : Disk) (host : KeygenHost) (body : String)
    (path : Path) : (createNew out disk host body).1 path = disk path ∨
      path = out ∧ disk out = none ∧
        ∃ text, (createNew out disk host body).1 out = some (.file (.ok text)) := by
  have hwrite : ∀ text, disk out = none →
      (Function.update disk out (some (.file (.ok text))) path = disk path ∨ path = out ∧
        disk out = none ∧ ∃ text', Function.update disk out (some (.file (.ok text))) out =
          some (Entry.file (.ok text'))) := by
    intro text hnone
    by_cases hpath : path = out
    · exact .inr ⟨hpath, hnone, text, Function.update_self ..⟩
    · exact .inl (Function.update_of_ne hpath ..)
  rw [createNew]
  split_ifs with hdisk
  · exact .inl rfl
  · have hnone : disk out = none := by simpa using hdisk
    rcases host.opened with e | _
    · exact .inl rfl
    · rcases host.torn with _ | ⟨text, e⟩
      · exact hwrite _ hnone
      · exact hwrite _ hnone

theorem createNew_eq_ok {out : Path} {disk : Disk} {host : KeygenHost} {body : String}
    (h : (createNew out disk host body).2 = .ok ()) :
    (createNew out disk host body).1 out = some (.file (.ok body)) := by
  rw [createNew] at h ⊢
  split_ifs at h ⊢
  cases hopened : host.opened with
  | error e =>
    rw [hopened] at h
    cases h
  | ok u =>
    cases htorn : host.torn with
    | some left =>
      rw [hopened, htorn] at h
      cases h
    | none => exact Function.update_self ..

section
variable (out : Path) (seen disk : Disk) (others : Disk → Disk) (host : KeygenHost)

theorem writeKeystore_made (path : Path) :
    (writeKeystore out seen disk others host).made path = disk path ∨
      disk path = none ∧ path ∈ out.parents ∧
        (writeKeystore out seen disk others host).made path = some .directory := by
  have hdirs := createDirAll_apply host.mkdir out.parents disk path
  rw [writeKeystore]
  split_ifs
  · exact .inl rfl
  · rcases hrun : createDirAll host.mkdir out.parents disk with ⟨made, e | u⟩
    · rw [hrun] at hdirs
      exact hdirs
    · rw [hrun] at hdirs
      rcases host.seed with e | seed
      · exact hdirs
      · exact hdirs

theorem writeKeystore_left (path : Path) :
    let run := writeKeystore out seen disk others host
    run.left path = others run.made path ∨
      path = out ∧ others run.made out = none ∧
        ∃ text, run.left out = some (.file (.ok text)) := by
  dsimp only
  rw [writeKeystore]
  split_ifs
  · exact .inl rfl
  · rcases createDirAll host.mkdir out.parents disk with ⟨made, e | u⟩
    · exact .inl rfl
    · rcases host.seed with e | seed
      · exact .inl rfl
      · exact createNew_apply out (others made) host _ path

variable {out seen disk others host}

theorem writeKeystore_eq_ok (h : (writeKeystore out seen disk others host).result = .ok ()) :
    (∀ dir ∈ out.parents,
      (writeKeystore out seen disk others host).made dir = some .directory) ∧
    ∃ seed, host.seed = .ok seed ∧ (writeKeystore out seen disk others host).left out =
      some (.file (.ok (keystoreBody (seedToHex seed)))) := by
  rw [writeKeystore] at h ⊢
  split_ifs at h ⊢
  rcases hrun : createDirAll host.mkdir out.parents disk with ⟨made, e | u⟩
  · rw [hrun] at h
    cases h
  · rw [hrun] at h
    have hok : (createDirAll host.mkdir out.parents disk).2 = .ok () := congrArg Prod.snd hrun
    have hdirs : ∀ dir ∈ out.parents, made dir = some .directory := by
      intro dir hdir
      rw [← createDirAll_eq_ok hok hdir, hrun]
    cases hseed : host.seed with
    | error e =>
      rw [hseed] at h
      cases h
    | ok seed =>
      rw [hseed] at h
      exact ⟨hdirs, seed, rfl, createNew_eq_ok h⟩

end

/-! ## Reading back -/

theorem notDigit_x : ¬ Hex.IsDigit 'x' := by decide

theorem stripHexPrefix_ofList {s : List Char} (h : ∀ c ∈ s, Hex.IsDigit c) :
    stripHexPrefix (String.ofList s) = s := by
  rw [stripHexPrefix, String.toList_ofList]
  split
  · exact absurd (h 'x' (by simp)) notDigit_x
  · rfl

theorem hexDecode_ofList {s : List Char} {seed : Bytes32}
    (h : Hex.decode s = some seed.toList) : hexDecode (String.ofList s) = .ok seed.toList := by
  have hdigits := (Hex.decode_isSome_iff.mp (by rw [h]; rfl)).2
  rw [hexDecode_eq_ok_iff, stripHexPrefix_ofList hdigits, h]

theorem spellsSeed_of_decode {s : List Char} {seed : Bytes32}
    (h : Hex.decode s = some seed.toList) : spellsSeed s = true := by
  have hdigits := (Hex.decode_isSome_iff.mp (by rw [h]; rfl)).2
  have hlen := Hex.length_of_decode h
  rw [spellsSeed_iff]
  refine ⟨?_, hdigits⟩
  rw [Hex.length_utf8_of_isDigit hdigits]
  simpa using hlen

section
variable {π : Type} {reader : KeyReader π} {disk : Disk}

theorem loadHybridPair_spelled {key : String} {seed : Bytes32} (hkey : disk.find key = none)
    (h : Hex.decode (stripHexPrefix key) = some seed.toList) :
    loadHybridPair reader disk key = .ok (reader.fromSeed seed) := by
  rw [loadHybridPair, hkey]
  dsimp only
  rw [if_pos (spellsSeed_of_decode h), hexDecode_ofList h]
  change Except.ok (reader.fromSeed (copySeed seed.toList)) = _
  rw [copySeed_toList]

theorem masterSeed_eq {v : Value} {seedHex : String} {seed : Bytes32}
    (hv : (v.get "master_seed_hex").bind Value.asStr = some seedHex)
    (hhex : hexDecode seedHex = .ok seed.toList) : masterSeed v = .ok seed := by
  have hlen : ¬ seed.toList.length ≠ 32 := by simp
  rw [masterSeed, hv]
  simp only [hhex, bind, Except.bind, if_neg hlen, copySeed_toList, pure, Except.pure]

def KeyReader.ReadsBack (reader : KeyReader π) : Prop :=
  ∀ seed : Bytes32, reader.fromStr (keystoreBody (seedToHex seed)) =
    .ok (.object [("master_seed_hex", .string (seedToHex seed))])

theorem loadKeystore_body (hjson : reader.ReadsBack) (seed : Bytes32) :
    loadKeystore reader (keystoreBody (seedToHex seed)) = .ok (reader.fromSeed seed) := by
  have hget : ((Value.object [("master_seed_hex", .string (seedToHex seed))]).get
      "master_seed_hex").bind Value.asStr = some (seedToHex seed) := by
    simp [Value.get, Value.asStr]
  have hseed := masterSeed_eq hget (hexDecode_ofList (Hex.decode_encode seed.toList))
  rw [loadKeystore, hjson seed]
  change (masterSeed _).map _ = _
  rw [hseed]
  rfl

theorem loadHybridPair_eq_error {key text : String} (hkey : disk.find key = none)
    (h : loadHybridPair reader disk key = .error text) :
    ∃ e, reader.fromString key = .error e ∧ text = uriErrorText (secretUriErrorKind e) := by
  rw [loadHybridPair, hkey] at h
  dsimp only at h
  split_ifs at h with hspells
  · rw [spellsSeed_iff] at hspells
    -- 64 digits are always read
    have heven : (stripHexPrefix key).length % 2 = 0 := by
      rw [← Hex.length_utf8_of_isDigit hspells.2, hspells.1]
    obtain ⟨bytes, hbytes⟩ :=
      Option.isSome_iff_exists.mp (Hex.decode_isSome_iff.mpr ⟨heven, hspells.2⟩)
    have hdecode : hexDecode (String.ofList (stripHexPrefix key)) = .ok bytes := by
      rw [hexDecode_eq_ok_iff, stripHexPrefix_ofList hspells.2, hbytes]
    rw [hdecode] at h
    cases h
  · cases huri : reader.fromString key with
    | ok pair =>
      rw [huri] at h
      cases h
    | error e =>
      rw [huri] at h
      exact ⟨e, rfl, (Except.error.inj h).symm⟩

/-- A run of `keygen` makes missing directories of its path and a file where there was none, and
changes nothing else. One that ends well leaves a keystore that loads the pair of its seed, the pair
that each spelling of the seed in hex loads too. A signer key that names no file fails only as a
secret URI does, with a text that depends on nothing but the kind of the error. -/
theorem keystores_load_back (reader : KeyReader π) (hjson : reader.ReadsBack) :
    (∀ out seen disk others host path, let run := writeKeystore out seen disk others host
      (run.made path = disk path ∨
        disk path = none ∧ path ∈ out.parents ∧ run.made path = some .directory) ∧
      (run.left path = others run.made path ∨
        path = out ∧ others run.made out = none ∧
          ∃ text, run.left out = some (.file (.ok text)))) ∧
    (∀ out seen disk others host, let run := writeKeystore out seen disk others host
      run.result = .ok () →
      (∀ dir ∈ out.parents, run.made dir = some .directory) ∧
        ∃ seed, host.seed = .ok seed ∧ ∀ key, Path.ofString key = out → endsOpen key = false →
          loadHybridPair reader run.left key = .ok (reader.fromSeed seed)) ∧
    (∀ (disk : Disk) key seed, disk.find key = none →
      Hex.decode (stripHexPrefix key) = some (Vector.toList seed) →
      loadHybridPair reader disk key = .ok (reader.fromSeed seed)) ∧
    ∀ (disk : Disk) key text, disk.find key = none → loadHybridPair reader disk key = .error text →
      ∃ e, reader.fromString key = .error e ∧ text = uriErrorText (secretUriErrorKind e) := by
  refine ⟨?_, ?_, ?_, ?_⟩
  · intro out seen disk others host path run
    exact ⟨writeKeystore_made out seen disk others host path,
      writeKeystore_left out seen disk others host path⟩
  · intro out seen disk others host run h
    obtain ⟨hdirs, seed, hseed, hfile⟩ := writeKeystore_eq_ok h
    refine ⟨hdirs, seed, hseed, ?_⟩
    rintro key rfl hkey
    rw [loadHybridPair, Disk.find_of_file hfile hkey]
    exact loadKeystore_body hjson seed
  · intro disk key seed hkey h
    exact loadHybridPair_spelled hkey h
  · intro disk key text hkey h
    exact loadHybridPair_eq_error hkey h

end

namespace Sample

/-- A reader of what `keygen` writes: the characters from the twentieth on. -/
def keyReader : KeyReader Bytes32 where
  fromSeed := id
  fromString _ := .error .invalidPhrase
  fromStr text :=
    .ok (.object [("master_seed_hex", .string (String.ofList ((text.toList.drop 20).take 64)))])

theorem toList_append_append (a b c : String) :
    (a ++ b ++ c).toList = a.toList ++ (b.toList ++ c.toList) := by
  rw [String.toList_append, String.toList_append, List.append_assoc]

theorem readsBack_keyReader : keyReader.ReadsBack := by
  intro seed
  have hlen : (Hex.encode seed.toList).length = 64 := by
    simpa using Hex.length_of_decode (Hex.decode_encode seed.toList)
  have hfront : "\x7b\"master_seed_hex\":\"".toList.length = 20 := by decide +kernel
  have hlist : (keystoreBody (seedToHex seed)).toList =
      "\x7b\"master_seed_hex\":\"".toList ++
        ((seedToHex seed).toList ++ "\"\x7d\n".toList) :=
    toList_append_append _ _ _
  have hbody : (keystoreBody (seedToHex seed)).toList.drop 20 =
      (seedToHex seed).toList ++ "\"\x7d\n".toList :=
    (congrArg (List.drop 20) hlist).trans (List.drop_left' hfront)
  have hhex : (seedToHex seed).toList = Hex.encode seed.toList := String.toList_ofList
  rw [← hhex] at hlen
  change Except.ok (Value.object [("master_seed_hex", .string (String.ofList
    (((keystoreBody (seedToHex seed)).toList.drop 20).take 64)))]) = _
  rw [hbody, List.take_append_of_le_length (by omega), List.take_of_length_le (by omega),
    String.ofList_toList]

def host : KeygenHost where
  mkdir _ := .ok ()
  seed := .ok (Vector.replicate 32 7)
  opened := .ok ()
  torn := none

end Sample

open Sample in
/-- The directory is made too. -/
theorem keystores_load_back_fresh :
    let run := writeKeystore (.ofString "keys/signer.json") (fun _ => none) (fun _ => none) id host
    run.left (.ofString "keys") = some .directory ∧
      loadHybridPair keyReader run.left "keys/signer.json" = .ok (Vector.replicate 32 7) := by
  intro run
  have hok : run.result = .ok () := rfl
  obtain ⟨hdirs, seed, hseed, hload⟩ := (keystores_load_back keyReader readsBack_keyReader).2.1
    (.ofString "keys/signer.json") (fun _ => none) (fun _ => none) id host hok
  have hkey := hload "keys/signer.json" rfl rfl
  rw [← Except.ok.inj hseed] at hkey
  exact ⟨rfl, hkey⟩

end QuipCoordinator
