import ProjectMu.GptFormat
import ProjectMu.InetPtonTexts

/-!
# The host that a TLS connection verifies

`tlsSetVerifyHost` has the certificate of the peer compared with an address if the host name is
the text of one, and with the name otherwise.
-/

namespace ProjectMu.TlsConfig

open ByteCodec AddressText CrtWrapper InetPton

def afInet : ℤ := 2
def afInet6 : ℤ := 24
def eafnosupport : ℤ := 47

/-- The result, what is stored at `dst` and in `errno`. -/
structure PtonAnswer where
  result : ℤ
  dst : Option (List Byte) := none
  errno : Option ℤ := none
  deriving DecidableEq

/-- What the readers of one family answer. -/
def ptonAnswer : Option (List Byte) → PtonAnswer
  | some address => { result := 1, dst := some address }
  | none => { result := 0 }

def inetPton (af : ℤ) (src : List Byte) : PtonAnswer :=
  if af = afInet then ptonAnswer (inetPton4 src)
  else if af = afInet6 then ptonAnswer (inetPton6 src)
  else { result := -1, errno := some eafnosupport }

theorem inetPton_afInet (src : List Byte) :
    inetPton afInet src = ptonAnswer (dottedQuad (cText src)) := by
  rw [inetPton, if_pos rfl, inetPton4_eq]

theorem inetPton_afInet6 (src : List Byte) : inetPton afInet6 src = ptonAnswer (inetPton6 src) := by
  have hnot : afInet6 ≠ afInet := by decide
  rw [inetPton, if_neg hnot, if_pos rfl]

theorem ptonAnswer_eq_iff {answer : Option (List Byte)} {address : List Byte} :
    ptonAnswer answer = { result := 1, dst := some address } ↔ answer = some address := by
  cases answer with
  | none => simp [ptonAnswer]
  | some address' => simp [ptonAnswer]

/-- `inetPton` stores an address exactly if the text is one, in the standard form or, for the long
addresses, in one of the forms beyond it. Otherwise it answers zero and leaves `dst` alone. No text
is an address of both families. -/
theorem inetPton_reads (src : List Byte) :
    (∀ address, inetPton afInet6 src = { result := 1, dst := some address } ↔
      Denotes (cText src) address ∨ Lenient (cText src) address) ∧
    (∀ address, inetPton afInet src = { result := 1, dst := some address } ↔
      dottedQuad (cText src) = some address) ∧
    (∀ af, (inetPton af src).result = 1 ∨ (inetPton af src).dst = none) ∧
    ((inetPton afInet src).result = 0 ∨ (inetPton afInet6 src).result = 0) := by
  refine ⟨fun address => ?_, fun address => ?_, fun af => ?_, ?_⟩
  · rw [inetPton_afInet6, ptonAnswer_eq_iff, inetPton6_eq_some_iff]
  · rw [inetPton_afInet, ptonAnswer_eq_iff]
  · have hanswer (answer : Option (List Byte)) :
        (ptonAnswer answer).result = 1 ∨ (ptonAnswer answer).dst = none := by
      cases answer with
      | none => exact Or.inr rfl
      | some address => exact Or.inl rfl
    unfold inetPton
    split_ifs
    · exact hanswer _
    · exact hanswer _
    · exact Or.inr rfl
  · rw [inetPton_afInet, inetPton_afInet6]
    cases hquad : dottedQuad (cText src) with
    | none => exact Or.inl rfl
    | some q =>
      rw [inetPton6_of_dottedQuad hquad]
      exact Or.inr rfl

/-- Addresses of both families are read back from every way to write them in the standard form,
whatever stands behind the terminating zero. -/
theorem inetPton_written :
    (∀ q behind, q.length = 4 →
      inetPton afInet (quadText q ++ 0 :: behind) = { result := 1, dst := some q }) ∧
    ∀ ws text behind, Written ws text → ws.length = 8 → (∀ w ∈ ws, w ≤ 65535) →
      inetPton afInet6 (text ++ 0 :: behind) = { result := 1, dst := some (addressBytes ws) } := by
  constructor
  · intro q behind hq
    have hquad := dottedQuad_quadText hq
    rw [inetPton_afInet, cText_append_zero (zero_notMem_dottedQuad hquad), hquad]
    rfl
  · intro ws text behind hwritten hlength hws
    rw [inetPton_afInet6, inetPton6_written hwritten hlength hws]
    rfl

/-- How the expected peer is handed to the verification parameters. An address is given by the
bytes up to its size. -/
inductive ParamCall
  | set1Ip (address : List Byte)
  | set1Host (name : List Byte)
  deriving DecidableEq

/-- What the certificate is compared with. -/
def verifiedPeer (hostName : List Byte) : ParamCall :=
  match inetPton afInet6 hostName with
  | ⟨1, some address, _⟩ => .set1Ip address
  | _ =>
    match inetPton afInet hostName with
    | ⟨1, some address, _⟩ => .set1Ip address
    | _ => .set1Host (cText hostName)

/-- The status, and the call if there is one. -/
def tlsSetVerifyHost (connected : Bool) (hostName : Option (List Byte))
    (paramStatus : ParamCall → ℤ) : Except EfiError Unit × Option ParamCall :=
  match connected, hostName with
  | true, some hostName =>
    let call := verifiedPeer hostName
    (if paramStatus call = 1 then .ok () else .error .aborted, some call)
  | _, _ => (.error .invalidParameter, none)

theorem verifiedPeer_eq (hostName : List Byte) :
    verifiedPeer hostName =
      match (inetPton6 hostName).or (dottedQuad (cText hostName)) with
      | some address => .set1Ip address
      | none => .set1Host (cText hostName) := by
  rw [verifiedPeer, inetPton_afInet, inetPton_afInet6]
  cases inetPton6 hostName with
  | some address => rfl
  | none =>
    cases dottedQuad (cText hostName) with
    | some address => rfl
    | none => rfl

/-- The bytes that a host name gives if it is taken for an address. -/
def HostAddress (text address : List Byte) : Prop :=
  (address.length = 16 ∧ (Denotes text address ∨ Lenient text address)) ∨
    (address.length = 4 ∧ dottedQuad text = some address)

theorem hostAddress_iff {hostName address : List Byte} :
    HostAddress (cText hostName) address ↔
      (inetPton6 hostName).or (dottedQuad (cText hostName)) = some address := by
  unfold HostAddress
  rw [← inetPton6_eq_some_iff]
  cases hlong : inetPton6 hostName with
  | some address' =>
    have hlength := length_inetPton6 hlong
    have hquad : dottedQuad (cText hostName) = none := by
      by_contra hsome
      obtain ⟨q, hq⟩ := Option.ne_none_iff_exists'.mp hsome
      cases hlong.symm.trans (inetPton6_of_dottedQuad hq)
    rw [hquad, Option.some_or, Option.some.injEq]
    constructor
    · rintro (⟨-, heq⟩ | ⟨-, hnone⟩)
      · exact heq
      · cases hnone
    · rintro rfl
      exact Or.inl ⟨hlength, rfl⟩
  | none =>
    rw [Option.none_or]
    constructor
    · rintro (⟨-, hnone⟩ | ⟨-, hquad⟩)
      · cases hnone
      · exact hquad
    · intro hquad
      exact Or.inr ⟨dottedQuad_length hquad, hquad⟩

/-- The certificate is compared with an address exactly if the host name is taken for it, and with
the name exactly if it is taken for none. One of the two calls is made, and its answer decides the
status. -/
theorem tlsSetVerifyHost_call (hostName : List Byte) (paramStatus : ParamCall → ℤ) :
    ∃ call, tlsSetVerifyHost true (some hostName) paramStatus =
        (if paramStatus call = 1 then .ok () else .error .aborted, some call) ∧
      (∀ address, call = .set1Ip address ↔ HostAddress (cText hostName) address) ∧
      ∀ name, call = .set1Host name ↔
        name = cText hostName ∧ ∀ address, ¬HostAddress (cText hostName) address := by
  refine ⟨verifiedPeer hostName, rfl, fun address => ?_, fun name => ?_⟩
  · rw [hostAddress_iff, verifiedPeer_eq]
    cases (inetPton6 hostName).or (dottedQuad (cText hostName)) with
    | none => simp
    | some address' => simp
  · simp only [hostAddress_iff]
    rw [verifiedPeer_eq]
    cases (inetPton6 hostName).or (dottedQuad (cText hostName)) with
    | none => simp [eq_comm]
    | some address' => simp

end ProjectMu.TlsConfig
