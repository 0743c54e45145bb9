import ProjectMu.ByteCodec
import ProjectMu.GptFormat

/-!
# The boot options of every boot

Each boot registers the default options and those of the platform again. An option that is there
already is recognised, also if the user has switched it off or on, so that no boot adds one twice,
and what the user did to the options is kept.
-/

namespace ProjectMu.MsBootOptions

open ByteCodec

def loadOptionActive : BitVec 32 := 1
def loadOptionHidden : BitVec 32 := 8

/-- `G` are the names of files in the firmware volume, `D` are device paths. -/
structure BootOption (D : Type*) where
  optionNumber : ℕ
  attributes : BitVec 32
  description : String
  filePath : D
  optionalData : List Byte

/-- What a boot asks for. -/
structure OptionRequest (G : Type*) where
  fileGuid : G
  description : String
  attributes : BitVec 32
  optionalData : List Byte

/-- What the firmware answers in one registration. -/
structure FvAnswers where
  loadedImage : Option EfiError
  fv2Protocol : Option EfiError
  readSection : Option EfiError
  appendDevicePathNode : Bool
  initializeLoadOption : Option EfiError
  addLoadOptionVariable : Option EfiError

structure FvAnswers.Succeed (answers : FvAnswers) : Prop where
  loadedImage : answers.loadedImage = none
  fv2Protocol : answers.fv2Protocol = none
  readSection : answers.readSection = none
  appendDevicePathNode : answers.appendDevicePathNode = true
  initializeLoadOption : answers.initializeLoadOption = none
  addLoadOptionVariable : answers.addLoadOptionVariable = none

/-- What the boot manager of the firmware promises: options are compared without their numbers, and
a new option gets a number that none of the others has. -/
structure LoadOptions (D : Type*) where
  find : BootOption D → List (BootOption D) → Option ℕ
  find_eq_none_iff : ∀ key options, find key options = none ↔ ∀ option ∈ options,
    ¬(key.attributes = option.attributes ∧ key.description = option.description ∧
      key.filePath = option.filePath ∧ key.optionalData = option.optionalData)
  freeNumber : List ℕ → ℕ
  freeNumber_notMem : ∀ numbers, freeNumber numbers ∉ numbers

section Options

variable {G D : Type*} (filePath : G → D) (lib : LoadOptions D)

/-- The option, with the dummy number. -/
def createFvBootOption (answers : FvAnswers) (request : OptionRequest G) :
    Except EfiError (BootOption D) :=
  match answers.loadedImage, answers.fv2Protocol, answers.readSection with
  | some e, _, _ => .error e
  | none, some e, _ => .error e
  | none, none, some e => .error e
  | none, none, none =>
    if answers.appendDevicePathNode then
      match answers.initializeLoadOption with
      | some e => .error e
      | none => .ok
          { optionNumber := 0x10000
            attributes := request.attributes
            description := request.description
            filePath := filePath request.fileGuid
            optionalData := request.optionalData }
    else .error .outOfResources

def BootOption.toggleActive (option : BootOption D) : BootOption D :=
  { option with attributes := option.attributes ^^^ loadOptionActive }

/-- The options behind a registration. A new one goes to the end of the order. -/
def registerFvBootOption (answers : FvAnswers) (request : OptionRequest G)
    (options : List (BootOption D)) : List (BootOption D) :=
  match createFvBootOption filePath answers request with
  | .error _ => options
  | .ok newOption =>
    match (lib.find newOption options).or (lib.find newOption.toggleActive options) with
    | some _ => options
    | none =>
      match answers.addLoadOptionVariable with
      | some _ => options
      | none =>
        options ++ [{ newOption with
          optionNumber := lib.freeNumber (options.map BootOption.optionNumber) }]

/-- `SSD` and `USB` with the byte behind them. -/
def ssdData : List Byte := [0x53, 0x53, 0x44, 0]
def usbData : List Byte := [0x55, 0x53, 0x42, 0]

/-- The files of the firmware volume that boot options start. -/
structure BootFiles (G : Type*) where
  msBootPolicy : G
  ufpLoader : G
  massStorage : G
  switchSlot : G

def defaultRequests (files : BootFiles G) : List (OptionRequest G) := [
  ⟨files.msBootPolicy, "Internal Storage", loadOptionActive, ssdData⟩,
  ⟨files.msBootPolicy, "USB Storage", loadOptionActive, usbData⟩,
  ⟨files.ufpLoader, "FFU Mode", loadOptionHidden, []⟩]

/-- The platform has none of its own if the table could not be allocated. -/
def getPlatformBootOptions (files : BootFiles G) (allocated : Bool) : List (OptionRequest G) :=
  if allocated then
    [⟨files.massStorage, "Mass Storage", loadOptionHidden, []⟩,
      ⟨files.switchSlot, "Switch Slot", loadOptionHidden, []⟩]
  else []

/-- The registrations have the answers of their index. -/
def registerAll (answers : ℕ → FvAnswers) (requests : List (OptionRequest G))
    (options : List (BootOption D)) : List (BootOption D) :=
  requests.zipIdx.foldl (fun options request =>
    registerFvBootOption filePath lib (answers request.2) request.1 options) options

def registerDefaultBootOptions (files : BootFiles G) (allocated : Bool) (answers : ℕ → FvAnswers)
    (options : List (BootOption D)) : List (BootOption D) :=
  registerAll filePath lib answers
    (defaultRequests files ++ getPlatformBootOptions files allocated) options

end Options

/-- What the registration recognises an option by. -/
structure OptionKey (D : Type*) where
  attributes : BitVec 32
  description : String
  filePath : D
  optionalData : List Byte
  deriving DecidableEq

variable {G D : Type*} {filePath : G → D} {lib : LoadOptions D}

/-- Apart from whether it is active. -/
def BootOption.key (option : BootOption D) : OptionKey D :=
  ⟨option.attributes &&& ~~~loadOptionActive, option.description, option.filePath,
    option.optionalData⟩

def OptionRequest.key (filePath : G → D) (request : OptionRequest G) : OptionKey D :=
  ⟨request.attributes &&& ~~~loadOptionActive, request.description, filePath request.fileGuid,
    request.optionalData⟩

theorem getLsbD_active (i : ℕ) : loadOptionActive.getLsbD i = decide (i = 0) := by
  change (1#32).getLsbD i = _
  rw [BitVec.getLsbD_one]
  simp

/-- Equal, or equal once the active bit is toggled. -/
theorem active_iff (a b : BitVec 32) :
    a = b ∨ a ^^^ loadOptionActive = b ↔ a &&& ~~~loadOptionActive = b &&& ~~~loadOptionActive := by
  have hcleared (c : BitVec 32) {i : ℕ} (hi : i < 32) :
      (c &&& ~~~loadOptionActive).getLsbD i = (c.getLsbD i && !decide (i = 0)) := by
    rw [BitVec.getLsbD_and, BitVec.getLsbD_not, getLsbD_active, decide_eq_true hi, Bool.true_and]
  have htoggled (c : BitVec 32) (i : ℕ) :
      (c ^^^ loadOptionActive).getLsbD i = (c.getLsbD i ^^ decide (i = 0)) := by
    rw [BitVec.getLsbD_xor, getLsbD_active]
  constructor
  · rintro (rfl | rfl)
    · rfl
    · apply BitVec.eq_of_getLsbD_eq
      intro i hi
      rw [hcleared _ hi, hcleared _ hi, htoggled]
      cases decide (i = 0) <;> simp
  · intro h
    have hbits (i : ℕ) (hi : i < 32) (hne : i ≠ 0) : a.getLsbD i = b.getLsbD i := by
      have heq := congrArg (BitVec.getLsbD · i) h
      rw [hcleared _ hi, hcleared _ hi, decide_eq_false hne] at heq
      simpa using heq
    by_cases hbit : a.getLsbD 0 = b.getLsbD 0
    · left
      apply BitVec.eq_of_getLsbD_eq
      intro i hi
      by_cases hzero : i = 0
      · rw [hzero, hbit]
      · exact hbits i hi hzero
    · right
      apply BitVec.eq_of_getLsbD_eq
      intro i hi
      rw [htoggled]
      by_cases hzero : i = 0
      · subst hzero
        cases ha : a.getLsbD 0 <;> cases hb : b.getLsbD 0 <;> simp_all
      · rw [decide_eq_false hzero, Bool.xor_false, hbits i hi hzero]

theorem BootOption.key_toggleActive (option : BootOption D) :
    option.toggleActive.key = option.key := by
  have hattributes := (active_iff option.attributes option.toggleActive.attributes).mp (.inr rfl)
  rw [BootOption.key, BootOption.key, ← hattributes]
  rfl

theorem createFvBootOption_key {answers : FvAnswers} {request : OptionRequest G}
    {newOption : BootOption D}
    (h : createFvBootOption filePath answers request = .ok newOption) :
    newOption.key = request.key filePath := by
  unfold createFvBootOption at h
  split at h <;> try cases h
  split_ifs at h
  split at h <;> cases h
  rfl

theorem createFvBootOption_succeed {answers : FvAnswers} (h : answers.Succeed)
    (request : OptionRequest G) :
    ∃ newOption, createFvBootOption filePath answers request = .ok newOption := by
  unfold createFvBootOption
  rw [h.loadedImage, h.fv2Protocol, h.readSection, h.appendDevicePathNode, h.initializeLoadOption]
  exact ⟨_, rfl⟩

/-- Both searches together look for an option with the same key. -/
theorem notFound_iff {newOption : BootOption D} {options : List (BootOption D)} :
    (lib.find newOption options).or (lib.find newOption.toggleActive options) = none ↔
      newOption.key ∉ options.map BootOption.key := by
  rw [Option.or_eq_none_iff, lib.find_eq_none_iff, lib.find_eq_none_iff, List.mem_map]
  constructor
  · rintro ⟨hsame, htoggled⟩ ⟨option, hmem, hkey⟩
    rw [BootOption.key, BootOption.key, OptionKey.mk.injEq] at hkey
    obtain ⟨hattributes, hdescription, hpath, hdata⟩ := hkey
    rcases (active_iff _ _).mpr hattributes.symm with heq | heq
    · exact hsame option hmem ⟨heq, hdescription.symm, hpath.symm, hdata.symm⟩
    · exact htoggled option hmem ⟨heq, hdescription.symm, hpath.symm, hdata.symm⟩
  · intro hnot
    have hkey (option : BootOption D) (h : newOption.attributes = option.attributes ∨
        newOption.attributes ^^^ loadOptionActive = option.attributes)
        (hrest : newOption.description = option.description ∧
          newOption.filePath = option.filePath ∧ newOption.optionalData = option.optionalData) :
        option.key = newOption.key := by
      rw [BootOption.key, BootOption.key, (active_iff _ _).mp h, hrest.1, hrest.2.1, hrest.2.2]
    exact ⟨fun option hmem h => hnot ⟨option, hmem, hkey option (.inl h.1) h.2⟩,
      fun option hmem h => hnot ⟨option, hmem, hkey option (.inr h.1) h.2⟩⟩

/-- A registration leaves the options alone, or adds one that was not there. -/
theorem registerFvBootOption_cases (answers : FvAnswers) (request : OptionRequest G)
    (options : List (BootOption D)) :
    registerFvBootOption filePath lib answers request options = options ∧
        (answers.Succeed → request.key filePath ∈ options.map BootOption.key) ∨
      request.key filePath ∉ options.map BootOption.key ∧
        ∃ newOption : BootOption D, newOption.key = request.key filePath ∧
          newOption.optionNumber ∉ options.map BootOption.optionNumber ∧
          registerFvBootOption filePath lib answers request options =
            options ++ [newOption] := by
  unfold registerFvBootOption
  cases hcreate : createFvBootOption filePath answers request with
  | error e =>
    refine .inl ⟨rfl, fun hsucceed => ?_⟩
    obtain ⟨newOption, hok⟩ := @createFvBootOption_succeed G D filePath _ hsucceed request
    rw [hok] at hcreate
    cases hcreate
  | ok newOption =>
    dsimp only
    have hkey := createFvBootOption_key hcreate
    cases hfound : (lib.find newOption options).or (lib.find newOption.toggleActive options) with
    | some index =>
      refine .inl ⟨rfl, fun _ => ?_⟩
      by_contra hnot
      rw [← hkey, ← notFound_iff, hfound] at hnot
      cases hnot
    | none =>
      have hnew := notFound_iff.mp hfound
      rw [hkey] at hnew
      cases hadd : answers.addLoadOptionVariable with
      | some e =>
        refine .inl ⟨rfl, fun hsucceed => ?_⟩
        rw [hsucceed.addLoadOptionVariable] at hadd
        cases hadd
      | none =>
        exact .inr ⟨hnew, { newOption with
          optionNumber := lib.freeNumber (options.map BootOption.optionNumber) }, hkey,
          lib.freeNumber_notMem _, rfl⟩

variable [DecidableEq D]

/-- The options from before are kept in their order, and those added have keys that were asked for
and not there. No key is there twice that was not, and no two options share a number. -/
structure Registered (keys : List (OptionKey D)) (before after : List (BootOption D)) : Prop where
  kept : before <+: after
  added : ∀ option ∈ after.drop before.length,
    option.key ∈ keys ∧ option.key ∉ before.map BootOption.key
  once : ∀ k, (after.map BootOption.key).count k ≤ max 1 ((before.map BootOption.key).count k)
  numbers : (before.map BootOption.optionNumber).Nodup →
    (after.map BootOption.optionNumber).Nodup

theorem Registered.refl (keys : List (OptionKey D)) (options : List (BootOption D)) :
    Registered keys options options where
  kept := List.prefix_rfl
  added option hmem := by
    rw [List.drop_length] at hmem
    cases hmem
  once k := le_max_right ..
  numbers h := h

theorem Registered.trans {keys keys' : List (OptionKey D)} {a b c : List (BootOption D)}
    (h : Registered keys a b) (h' : Registered keys' b c) : Registered (keys ++ keys') a c where
  kept := h.kept.trans h'.kept
  added option hmem := by
    obtain ⟨x, rfl⟩ := h.kept
    obtain ⟨y, rfl⟩ := h'.kept
    rw [List.append_assoc, List.drop_left] at hmem
    rcases List.mem_append.mp hmem with hx | hy
    · obtain ⟨hkey, hnew⟩ := h.added option (by rwa [List.drop_left])
      exact ⟨List.mem_append_left _ hkey, hnew⟩
    · obtain ⟨hkey, hnew⟩ := h'.added option (by rwa [List.drop_left])
      rw [List.map_append, List.mem_append, not_or] at hnew
      exact ⟨List.mem_append_right _ hkey, hnew.1⟩
  once k := by
    have hfirst := h.once k
    have hsecond := h'.once k
    omega
  numbers hnodup := h'.numbers (h.numbers hnodup)

theorem registered_step (answers : FvAnswers) (request : OptionRequest G)
    (options : List (BootOption D)) :
    Registered [request.key filePath] options
        (registerFvBootOption filePath lib answers request options) ∧
      (answers.Succeed → request.key filePath ∈
        (registerFvBootOption filePath lib answers request options).map BootOption.key) ∧
      (request.key filePath ∈ options.map BootOption.key →
        registerFvBootOption filePath lib answers request options = options) := by
  rcases @registerFvBootOption_cases G D filePath lib answers
    request options with ⟨hsame, hthere⟩ | ⟨hnew, newOption, hkey, hnumber, hadded⟩
  · rw [hsame]
    exact ⟨.refl _ _, hthere, fun _ => rfl⟩
  · rw [hadded]
    refine ⟨⟨List.prefix_append .., fun option hmem => ?_, fun k => ?_, fun hnodup => ?_⟩,
      fun _ => ?_, fun hmem => absurd hmem hnew⟩
    · rw [List.drop_left, List.mem_singleton] at hmem
      rw [hmem, hkey]
      exact ⟨List.mem_singleton_self _, hnew⟩
    · rw [List.map_append, List.count_append, List.map_singleton, hkey, List.count_singleton]
      by_cases hk : request.key filePath = k
      · subst hk
        rw [List.count_eq_zero_of_not_mem hnew, beq_self_eq_true]
        exact le_max_left ..
      · rw [beq_eq_false_iff_ne.mpr hk]
        exact le_max_right ..
    · rw [List.map_append, List.map_singleton, List.nodup_append]
      refine ⟨hnodup, List.nodup_singleton _, fun n hn m hm => ?_⟩
      rw [List.mem_singleton.mp hm]
      exact fun heq => hnumber (heq ▸ hn)
    · rw [List.map_append, List.map_singleton, hkey]
      exact List.mem_append_right _ (List.mem_singleton_self _)

/-- What a registration of several requests does, with the answers to each. -/
theorem registered_fold (answers : ℕ → FvAnswers) (requests : List (OptionRequest G × ℕ))
    (options : List (BootOption D)) :
    let after := requests.foldl (fun options request =>
      registerFvBootOption filePath lib (answers request.2) request.1 options) options
    Registered (requests.map fun request => request.1.key filePath) options after ∧
      ((∀ i, (answers i).Succeed) → ∀ request ∈ requests,
        request.1.key filePath ∈ after.map BootOption.key) ∧
      ((∀ request ∈ requests, request.1.key filePath ∈ options.map BootOption.key) →
        after = options) := by
  induction requests generalizing options with
  | nil => exact ⟨.refl _ _, fun _ request hmem => (List.not_mem_nil hmem).elim, fun _ => rfl⟩
  | cons request requests ih =>
    intro after
    obtain ⟨hstep, hthere, hsame⟩ := @registered_step G D filePath lib _ (answers request.2)
      request.1 options
    set next := registerFvBootOption filePath lib (answers request.2) request.1 options with
      hnext
    obtain ⟨hrest, hthereRest, hsameRest⟩ := ih next
    refine ⟨hstep.trans hrest, fun hsucceed other hother => ?_, fun hall => ?_⟩
    · rcases List.mem_cons.mp hother with rfl | hother
      · exact (hrest.kept.map BootOption.key).subset (hthere (hsucceed _))
      · exact hthereRest hsucceed other hother
    · have hnextSame : next = options := hsame (hall request List.mem_cons_self)
      rw [hnextSame] at hsameRest
      change requests.foldl _ next = options
      rw [hnextSame]
      exact hsameRest fun other hother => hall other (List.mem_cons_of_mem _ hother)

section Run

variable (filePath : G → D) (lib : LoadOptions D) (files : BootFiles G)

/-- The keys of all options that a boot may register. -/
def bootKeys : List (OptionKey D) :=
  (defaultRequests files ++ getPlatformBootOptions files true).map (OptionRequest.key filePath)

/-- What a user may do to the options: switch them on and off, move and delete them, and add any
other one. -/
structure UserEdit where
  edit : List (BootOption D) → List (BootOption D)
  once : ∀ options, ∀ k ∈ bootKeys filePath files,
    ((edit options).map BootOption.key).count k ≤ (options.map BootOption.key).count k
  numbers : ∀ options, (options.map BootOption.optionNumber).Nodup →
    ((edit options).map BootOption.optionNumber).Nodup

omit [DecidableEq D] in
theorem map_modify_toggleActive {α : Type*} {f : BootOption D → α}
    (h : ∀ option : BootOption D, f option.toggleActive = f option) (index : ℕ)
    (options : List (BootOption D)) :
    (options.modify index BootOption.toggleActive).map f = options.map f := by
  induction options generalizing index with
  | nil => rw [List.modify_nil]
  | cons option options ih =>
    cases index with
    | zero => rw [List.modify_zero_cons, List.map_cons, List.map_cons, h]
    | succ index => rw [List.modify_succ_cons, List.map_cons, List.map_cons, ih]

variable {filePath files} in
/-- Switches an option on or off. -/
def UserEdit.switch (index : ℕ) : UserEdit filePath files where
  edit options := options.modify index BootOption.toggleActive
  once options k _ := by
    rw [map_modify_toggleActive BootOption.key_toggleActive]
  numbers options hnumbers := by
    rwa [map_modify_toggleActive fun _ => rfl]

inductive OptionEvent
  | boot (allocated : Bool) (answers : ℕ → FvAnswers)
  | edit (edit : UserEdit filePath files)

def optionStep (options : List (BootOption D)) :
    OptionEvent filePath files → List (BootOption D)
  | .boot allocated answers =>
    registerDefaultBootOptions filePath lib files allocated answers options
  | .edit edit => edit.edit options

def optionRun (options : List (BootOption D)) (events : List (OptionEvent filePath files)) :
    List (BootOption D) :=
  events.foldl (optionStep filePath lib files) options

end Run

variable {files : BootFiles G}

theorem registerDefault_registered (allocated : Bool) (answers : ℕ → FvAnswers)
    (options : List (BootOption D)) :
    let after := registerDefaultBootOptions filePath lib files allocated answers options
    Registered (bootKeys filePath files) options after ∧
      ((∀ i, (answers i).Succeed) → allocated = true →
        ∀ k ∈ bootKeys filePath files, k ∈ after.map BootOption.key) ∧
      ((∀ k ∈ bootKeys filePath files, k ∈ options.map BootOption.key) → after = options) := by
  intro after
  set requests := defaultRequests files ++ getPlatformBootOptions files allocated with hrequests
  obtain ⟨hregistered, hthere, hsame⟩ := @registered_fold G D filePath lib _ answers
    requests.zipIdx options
  have hkeys : requests.zipIdx.map (fun request => request.1.key filePath) =
      requests.map (OptionRequest.key filePath) := by
    have hmap := congrArg (List.map (OptionRequest.key filePath)) (List.zipIdx_map_fst 0 requests)
    rw [List.map_map] at hmap
    exact hmap
  have hsub : ∀ k ∈ requests.map (OptionRequest.key filePath), k ∈ bootKeys filePath files := by
    intro k hk
    cases allocated with
    | true => exact hk
    | false =>
      rw [hrequests, getPlatformBootOptions, if_neg Bool.false_ne_true, List.append_nil] at hk
      rw [bootKeys, List.map_append]
      exact List.mem_append_left _ hk
  rw [hkeys] at hregistered
  refine ⟨⟨hregistered.kept, fun option hmem => ?_, hregistered.once, hregistered.numbers⟩,
    fun hsucceed hallocated k hk => ?_, fun hall => hsame fun request hmem => hall _ ?_⟩
  · exact ⟨hsub _ (hregistered.added option hmem).1, (hregistered.added option hmem).2⟩
  · subst hallocated
    change k ∈ requests.map (OptionRequest.key filePath) at hk
    rw [← hkeys] at hk
    obtain ⟨request, hmem, rfl⟩ := List.mem_map.mp hk
    exact hthere hsucceed request hmem
  · apply hsub
    rw [← hkeys]
    exact List.mem_map.mpr ⟨request, hmem, rfl⟩

theorem optionRun_once {options : List (BootOption D)}
    (honce : ∀ k ∈ bootKeys filePath files, (options.map BootOption.key).count k ≤ 1)
    (hnumbers : (options.map BootOption.optionNumber).Nodup)
    (events : List (OptionEvent filePath files)) :
    (∀ k ∈ bootKeys filePath files,
      ((optionRun filePath lib files options events).map BootOption.key).count k ≤ 1) ∧
      ((optionRun filePath lib files options events).map BootOption.optionNumber).Nodup := by
  induction events generalizing options with
  | nil => exact ⟨honce, hnumbers⟩
  | cons event events ih =>
    cases event with
    | boot allocated answers =>
      obtain ⟨hregistered, -, -⟩ := @registerDefault_registered G D filePath lib _ files
        allocated answers options
      refine ih (fun k hk => ?_) (hregistered.numbers hnumbers)
      exact (hregistered.once k).trans (max_le le_rfl (honce k hk))
    | edit edit =>
      exact ih (fun k hk => (edit.once options k hk).trans (honce k hk))
        (edit.numbers options hnumbers)

/-- Over all boots and all that the user does in between, no default option is there twice and no
two options share a number. A boot keeps the options and their order and adds default options that
were missing only. If nothing fails each of them is there once, and the next boot changes
nothing. -/
theorem optionRun_registered (filePath : G → D) (lib : LoadOptions D) (files : BootFiles G)
    {options : List (BootOption D)}
    (honce : ∀ k ∈ bootKeys filePath files, (options.map BootOption.key).count k ≤ 1)
    (hnumbers : (options.map BootOption.optionNumber).Nodup)
    (events : List (OptionEvent filePath files)) :
    let reached := optionRun filePath lib files options events
    (∀ k ∈ bootKeys filePath files, (reached.map BootOption.key).count k ≤ 1) ∧
    (reached.map BootOption.optionNumber).Nodup ∧
    ∀ allocated answers,
      let booted := registerDefaultBootOptions filePath lib files allocated answers reached
      Registered (bootKeys filePath files) reached booted ∧
      ((∀ i, (answers i).Succeed) → allocated = true →
        (∀ k ∈ bootKeys filePath files, (booted.map BootOption.key).count k = 1) ∧
        ∀ allocated' answers',
          registerDefaultBootOptions filePath lib files allocated' answers' booted =
            booted) := by
  intro reached
  obtain ⟨hreachedOnce, hreachedNumbers⟩ := @optionRun_once G D filePath lib _ files _ honce
    hnumbers events
  refine ⟨hreachedOnce, hreachedNumbers, fun allocated answers => ?_⟩
  obtain ⟨hregistered, hthere, -⟩ := @registerDefault_registered G D filePath lib _ files
    allocated answers reached
  refine ⟨hregistered, fun hsucceed hallocated => ⟨fun k hk => ?_, fun allocated' answers' => ?_⟩⟩
  · have hle := (hregistered.once k).trans (max_le le_rfl (hreachedOnce k hk))
    have hpos := List.count_pos_iff.mpr (hthere hsucceed hallocated k hk)
    exact Nat.le_antisymm hle hpos
  · obtain ⟨-, -, hsame⟩ := @registerDefault_registered G D filePath lib _ files
      allocated' answers' (registerDefaultBootOptions filePath lib files allocated answers
        reached)
    exact hsame (hthere hsucceed hallocated)

/-- Compares the options field by field, and takes the first number that is free. -/
def firstFree (D : Type*) [DecidableEq D] : LoadOptions D where
  find key options := options.findIdx? fun option =>
    key.attributes = option.attributes ∧ key.description = option.description ∧
      key.filePath = option.filePath ∧ key.optionalData = option.optionalData
  find_eq_none_iff key options := by
    rw [List.findIdx?_eq_none_iff]
    exact forall₂_congr fun option _ => decide_eq_false_iff_not
  freeNumber numbers :=
    ((List.range numbers.length).find? fun n => n ∉ numbers).getD (numbers.sum + 1)
  freeNumber_notMem numbers := by
    cases hfind : (List.range numbers.length).find? fun n => n ∉ numbers with
    | some n =>
      have hfree := List.find?_some hfind
      exact of_decide_eq_true hfree
    | none =>
      intro (hmem : numbers.sum + 1 ∈ numbers)
      have hle := List.single_le_sum (fun n _ => Nat.zero_le n) _ hmem
      omega

/-- The phone boots, the user switches the internal storage off, and the phone boots again. -/
theorem optionRun_registered_switchedOff :
    let files : BootFiles ℕ := ⟨0, 1, 2, 3⟩
    let answers : ℕ → FvAnswers := fun _ => ⟨none, none, none, true, none, none⟩
    let reached := optionRun id (firstFree ℕ) files [] [.boot true answers, .edit (.switch 0)]
    let booted := registerDefaultBootOptions id (firstFree ℕ) files true answers reached
    (∀ k ∈ bootKeys id files, (booted.map BootOption.key).count k = 1) ∧
      registerDefaultBootOptions id (firstFree ℕ) files true answers booted = booted := by
  intro files answers reached booted
  obtain ⟨-, -, hboot⟩ := @optionRun_registered ℕ ℕ _ id (firstFree ℕ) files []
    (fun k _ => Nat.zero_le 1) List.nodup_nil [.boot true answers, .edit (.switch 0)]
  obtain ⟨-, hall⟩ := hboot true answers
  obtain ⟨honce, hagain⟩ := hall (fun i => ⟨rfl, rfl, rfl, rfl, rfl, rfl⟩) rfl
  exact ⟨honce, hagain true answers⟩

end ProjectMu.MsBootOptions
