import ProjectMu.GptFormat
import ProjectMu.PositionedFile

/-!
# Replacing the Secure Boot policy of Windows

On every file system with a Windows boot manager, `processFileSystem` opens
`SiPolicy.p7b`, creates it where it is missing, reads it and writes the custom policy
where the two hashes differ. The read moves the file position that the write starts at.
-/

namespace ProjectMu

open ByteCodec PositionedFile

/-- The answers of the firmware to one boot: the custom policy of the firmware volume, the
status each file call fails with, if any, and the outcome of the two allocations. A failing
write leaves `failedWrite` of the file. -/
structure SiPolicyBoot where
  customSiPolicy : Except EfiError (List Byte)
  openBootmgfw : Option EfiError
  openSiPolicy : Option EfiError
  createSiPolicy : Option EfiError
  getFileInfoSize : Option EfiError
  allocateFileInfo : Bool
  getFileInfo : Option EfiError
  allocateContent : Bool
  readFile : Option EfiError
  writeFile : Option EfiError
  failedWrite : File Byte → File Byte
  deleteFile : Option EfiError

structure SiPolicyBoot.FilesSucceed (boot : SiPolicyBoot) : Prop where
  openBootmgfw : boot.openBootmgfw = none
  openSiPolicy : boot.openSiPolicy = none
  createSiPolicy : boot.createSiPolicy = none
  getFileInfoSize : boot.getFileInfoSize = none
  getFileInfo : boot.getFileInfo = none
  readFile : boot.readFile = none
  writeFile : boot.writeFile = none

/-- The handle of `SiPolicy.p7b`: its file, unless deleted, and whether it is still open. -/
structure SiPolicyHandle where
  file : Option (File Byte)
  isOpen : Bool

structure FsVolume where
  hasBootmgfw : Bool
  siPolicy : Option (List Byte)

section Hash

variable (sha256HashAll : List Byte → Option (BitVec 256))

def replaceSiPolicy (currentFile newFile : Option (List Byte)) : Bool :=
  match currentFile, newFile with
  | some current, some new =>
    match sha256HashAll current with
    | none => true
    | some currentHash =>
      match sha256HashAll new with
      | none => true
      | some newHash => currentHash != newHash
  | _, _ => true

/-- The content buffer, if it could be allocated, and the file after the read. A failing
read leaves the zeroed buffer. -/
def getSiPolicyContent (boot : SiPolicyBoot) (file : File Byte) :
    Option (List Byte) × File Byte :=
  if boot.getFileInfoSize.isSome then (none, file)
  else if !boot.allocateFileInfo then (none, file)
  else if boot.getFileInfo.isSome then (none, file)
  else if !boot.allocateContent then (none, file)
  else if boot.readFile.isSome then (some (List.replicate file.content.length 0), file)
  else
    let (bytes, file) := file.read file.content.length
    (some bytes, file)

/-- `secureBoot` is the build flag `ENABLE_SECUREBOOT`. -/
def manageSiPolicy (secureBoot : Bool) (boot : SiPolicyBoot) (file : File Byte) :
    SiPolicyHandle :=
  if secureBoot then
    match boot.customSiPolicy with
    | .error _ => ⟨some file, true⟩
    | .ok customFileContent =>
      let (fileContent, file) := getSiPolicyContent boot file
      if replaceSiPolicy sha256HashAll fileContent (some customFileContent) then
        -- the write starts where the read stopped
        match boot.writeFile with
        | some _ => ⟨some (boot.failedWrite file), true⟩
        | none => ⟨some (file.write customFileContent), false⟩
      else ⟨some file, false⟩
  else
    match boot.deleteFile with
    | some _ => ⟨some file, false⟩
    | none => ⟨none, false⟩

def openSiPolicyFile (boot : SiPolicyBoot) (volume : FsVolume) : Except EfiError (File Byte) :=
  match boot.openSiPolicy with
  | some e => .error e
  | none =>
    match volume.siPolicy with
    | none => .error .notFound
    | some content => .ok (File.opened content)

def createSiPolicyFile (boot : SiPolicyBoot) (volume : FsVolume) : Except EfiError (File Byte) :=
  match boot.createSiPolicy with
  | some e => .error e
  | none => .ok (File.opened (volume.siPolicy.getD []))

def processFileSystem (secureBoot : Bool) (boot : SiPolicyBoot) (volume : FsVolume) : FsVolume :=
  let manage (file : File Byte) : FsVolume :=
    { volume with
      siPolicy := (manageSiPolicy sha256HashAll secureBoot boot file).file.map File.content }
  if boot.openBootmgfw.isSome || !volume.hasBootmgfw then volume
  else
    match openSiPolicyFile boot volume with
    | .ok file => manage file
    | .error e =>
      if e ≠ .notFound then volume
      else if secureBoot then
        match createSiPolicyFile boot volume with
        | .error _ => volume
        | .ok file => manage file
      else volume

def SiPolicyBoot.readsContent (boot : SiPolicyBoot) : Bool :=
  boot.allocateFileInfo && boot.allocateContent

theorem getSiPolicyContent_opened {boot : SiPolicyBoot} (hf : boot.FilesSucceed)
    (content : List Byte) :
    getSiPolicyContent boot (File.opened content) =
      if boot.readsContent then (some content, ⟨content, content.length⟩)
      else (none, File.opened content) := by
  have hread := read_opened content
  unfold getSiPolicyContent SiPolicyBoot.readsContent
  cases boot.allocateFileInfo <;> cases boot.allocateContent <;>
    simp_all [hf.getFileInfoSize, hf.getFileInfo, hf.readFile, File.opened]

/-- Two hashes of contents that `sha256HashAll` tells apart differ exactly when the contents do. -/
theorem replaceSiPolicy_eq_false_iff {current new : List Byte}
    (hinj : ∀ d, sha256HashAll current = some d → sha256HashAll new = some d → current = new) :
    replaceSiPolicy sha256HashAll (some current) (some new) = false ↔
      current = new ∧ (sha256HashAll new).isSome := by
  unfold replaceSiPolicy
  cases hc : sha256HashAll current with
  | none =>
    suffices h : current = new → sha256HashAll new = none by simpa [hc] using h
    intro h
    rw [← h, hc]
  | some dc =>
    cases hn : sha256HashAll new with
    | none => simp [hc, hn]
    | some dn =>
      suffices h : dc = dn ↔ current = new by simpa [hc, hn] using h
      constructor
      · intro h
        exact hinj dc hc (by rw [hn, h])
      · intro h
        rw [h, hn] at hc
        exact (Option.some.inj hc).symm

/-- The old content of `SiPolicy.p7b` from which one boot leaves the custom policy: where
the content is read, nothing or the custom policy itself; where it is not, any content
that the custom policy covers. -/
def ReplacedExactly (boot : SiPolicyBoot) (content custom : List Byte) : Prop :=
  if boot.readsContent then content = [] ∨ content = custom ∧ (sha256HashAll custom).isSome
  else content.length ≤ custom.length

theorem manageSiPolicy_content {boot : SiPolicyBoot} (hf : boot.FilesSucceed)
    {custom : List Byte} (hc : boot.customSiPolicy = .ok custom) (content : List Byte)
    (hinj : ∀ d, sha256HashAll content = some d → sha256HashAll custom = some d →
      content = custom) :
    (manageSiPolicy sha256HashAll true boot (File.opened content)).file.map File.content =
        some custom ↔ ReplacedExactly sha256HashAll boot content custom := by
  unfold manageSiPolicy ReplacedExactly
  rw [if_pos rfl, hc]
  simp only [getSiPolicyContent_opened hf, hf.writeFile]
  by_cases hr : boot.readsContent
  · rw [if_pos hr, if_pos hr]
    have hcompare := replaceSiPolicy_eq_false_iff sha256HashAll hinj
    by_cases hw : replaceSiPolicy sha256HashAll (some content) (some custom)
    · have hne : ¬(content = custom ∧ (sha256HashAll custom).isSome) := by
        intro h
        rw [← hcompare] at h
        exact absurd hw (by rw [h]; exact Bool.false_ne_true)
      have hwrite := write_at_end_eq_iff content custom
      simp only [hw, if_true, Option.map_some, Option.some.injEq, hwrite]
      tauto
    · have heq := hcompare.mp (Bool.eq_false_iff.mpr hw)
      simp only [hw, Bool.false_eq_true, if_false, Option.map_some, Option.some.injEq]
      tauto
  · rw [if_neg hr, if_neg hr]
    have hw : replaceSiPolicy sha256HashAll none (some custom) = true := rfl
    have hwrite := write_at_start_eq_iff content custom
    simp only [hw, if_true, Option.map_some, Option.some.injEq, hwrite]

theorem processFileSystem_siPolicy {boot : SiPolicyBoot} (hf : boot.FilesSucceed)
    {volume : FsVolume} (hb : volume.hasBootmgfw) :
    processFileSystem sha256HashAll true boot volume =
      { volume with
        siPolicy := (manageSiPolicy sha256HashAll true boot
          (File.opened (volume.siPolicy.getD []))).file.map File.content } := by
  unfold processFileSystem openSiPolicyFile createSiPolicyFile
  cases hv : volume.siPolicy with
  | none => simp [hf.openBootmgfw, hf.openSiPolicy, hf.createSiPolicy, hb]
  | some content => simp [hf.openBootmgfw, hf.openSiPolicy, hb]

/-- What one boot leaves, from a missing or an existing policy. -/
theorem processFileSystem_siPolicy_iff {boot : SiPolicyBoot} (hf : boot.FilesSucceed)
    {volume : FsVolume} (hb : volume.hasBootmgfw) {custom : List Byte}
    (hc : boot.customSiPolicy = .ok custom)
    (hinj : ∀ d, sha256HashAll (volume.siPolicy.getD []) = some d →
      sha256HashAll custom = some d → volume.siPolicy.getD [] = custom) :
    (processFileSystem sha256HashAll true boot volume).siPolicy = some custom ↔
      ReplacedExactly sha256HashAll boot (volume.siPolicy.getD []) custom := by
  rw [processFileSystem_siPolicy sha256HashAll hf hb]
  exact manageSiPolicy_content sha256HashAll hf hc _ hinj

theorem processFileSystem_hasBootmgfw (secureBoot : Bool) (boot : SiPolicyBoot)
    (volume : FsVolume) :
    (processFileSystem sha256HashAll secureBoot boot volume).hasBootmgfw =
      volume.hasBootmgfw := by
  unfold processFileSystem
  dsimp only
  repeat' split
  all_goals rfl

/-- The policy is replaced and the next boot keeps it exactly when the first boot finds a
content it replaces exactly and the second boot one it recognises. -/
theorem siPolicy_converges_iff {first second : SiPolicyBoot} (hf : first.FilesSucceed)
    (hs : second.FilesSucceed) {volume : FsVolume} (hb : volume.hasBootmgfw)
    {custom : List Byte} (hcf : first.customSiPolicy = .ok custom)
    (hcs : second.customSiPolicy = .ok custom)
    (hinj : ∀ d, sha256HashAll (volume.siPolicy.getD []) = some d →
      sha256HashAll custom = some d → volume.siPolicy.getD [] = custom) :
    ((processFileSystem sha256HashAll true first volume).siPolicy = some custom ∧
      (processFileSystem sha256HashAll true second
        (processFileSystem sha256HashAll true first volume)).siPolicy =
        (processFileSystem sha256HashAll true first volume).siPolicy) ↔
      ReplacedExactly sha256HashAll first (volume.siPolicy.getD []) custom ∧
        ReplacedExactly sha256HashAll second custom custom := by
  set after := processFileSystem sha256HashAll true first volume with hafter
  have hone : after.siPolicy = some custom ↔ _ :=
    processFileSystem_siPolicy_iff sha256HashAll hf hb hcf hinj
  rw [← hone]
  refine and_congr_right fun hkept => ?_
  have hb' : after.hasBootmgfw := by
    rw [hafter, processFileSystem_hasBootmgfw]
    exact hb
  have htwo := processFileSystem_siPolicy_iff sha256HashAll hs hb' hcs
    (by simp [hkept])
  rw [hkept] at htwo ⊢
  simpa using htwo

end Hash

/-- The digests of the contents used below, and none of any other content. -/
def shortDigests (content : List Byte) : Option (BitVec 256) :=
  if content = [] then
    some 0xe3b0c44298fc1c149afbf4c8996fb92427ae41e4649b934ca495991b7852b855
  else if content = [0x41] then
    some 0x559aead08264d5795d3909718cdd05abd49572e84fe55590eef31a88a08fdffd
  else if content = [0x42] then
    some 0xdf7e70e5021544f4834bbee64a9e3789febc4be81470df629cad6ddb03320a5c
  else none

def bootWithPolicy (custom : List Byte) : SiPolicyBoot where
  customSiPolicy := .ok custom
  openBootmgfw := none
  openSiPolicy := none
  createSiPolicy := none
  getFileInfoSize := none
  allocateFileInfo := true
  getFileInfo := none
  allocateContent := true
  readFile := none
  writeFile := none
  failedWrite := id
  deleteFile := none

theorem bootWithPolicy_filesSucceed (custom : List Byte) :
    (bootWithPolicy custom).FilesSucceed :=
  ⟨rfl, rfl, rfl, rfl, rfl, rfl, rfl⟩

/-- A missing policy is created and then kept. -/
theorem siPolicy_converges_created :
    (processFileSystem shortDigests true (bootWithPolicy [0x42]) ⟨true, none⟩).siPolicy =
        some [0x42] ∧
      (processFileSystem shortDigests true (bootWithPolicy [0x42])
        (processFileSystem shortDigests true (bootWithPolicy [0x42]) ⟨true, none⟩)).siPolicy =
        (processFileSystem shortDigests true (bootWithPolicy [0x42]) ⟨true, none⟩).siPolicy :=
  (siPolicy_converges_iff shortDigests (bootWithPolicy_filesSucceed [0x42])
    (bootWithPolicy_filesSucceed [0x42]) rfl rfl rfl
    (fun _ h h' => absurd (h.trans h'.symm) (by decide))).mpr
    ⟨Or.inl rfl, Or.inr ⟨rfl, rfl⟩⟩

/-- A different one-byte policy is not replaced but appended to. -/
theorem siPolicy_appended :
    (bootWithPolicy [0x42]).FilesSucceed ∧
      shortDigests [0x41] ≠ shortDigests [0x42] ∧
      (processFileSystem shortDigests true (bootWithPolicy [0x42]) ⟨true, some [0x41]⟩).siPolicy =
        some [0x41, 0x42] ∧
      (processFileSystem shortDigests true (bootWithPolicy [0x42]) ⟨true, some [0x41]⟩).siPolicy ≠
        some [0x42] :=
  ⟨bootWithPolicy_filesSucceed [0x42], by decide, by decide, by decide⟩

end ProjectMu
