import Mathlib.Tactic.FinCases
import Kanat.CameraSync
import Kanat.JsNumbers

/-! # The cameras the API accepts

`schemas/camera.py`, Python's `ipaddress` as far as it is used there, and `_save` of `services/cameras.py`. -/
namespace Kanat.AcceptedCameras
open JsNumbers PlainTexts

def blankToNone (value : Option String) : Option String :=
  match value with
  | some value => if strip isspace value.toList = [] then none else some value
  | none => none

@[grind =] def aliasChar (c : Char) : Bool := c.isAlphanum || c == '_' || c == '-'

/-- `^[A-Za-z0-9][A-Za-z0-9_-]{1,62}$` -/
def aliasPattern (s : String) : Bool :=
  match s.toList with
  | [] => false
  | c :: l => c.isAlphanum && l.all aliasChar && 1 ≤ l.length && l.length ≤ 62

def ifaceChar (c : Char) : Bool := c.isAlphanum || c == '.' || c == '_' || c == ':' || c == '-'

/-- `^[A-Za-z0-9._:-]{1,32}$` -/
def ifacePattern (s : String) : Bool := s.toList.all ifaceChar && 1 ≤ s.toList.length && s.toList.length ≤ 32

structure IPv4Address where
  octets : Fin 4 → Fin 256
  deriving DecidableEq

def parseOctet (octet : List Char) : Option (Fin 256) :=
  if octet = [] ∨ !octet.all Char.isDigit ∨ 3 < octet.length ∨ octet ≠ ['0'] ∧ octet.head? = some '0' then none
  else if h : valueOf octet < 256 then some ⟨valueOf octet, h⟩ else none

namespace IPv4Address

/-- `IPv4Address(text)` -/
def parse (s : String) : Option IPv4Address :=
  if '/' ∈ s.toList then none
  else match s.toList.splitOn '.' with
    | [a, b, c, d] => do
      let a ← parseOctet a
      let b ← parseOctet b
      let c ← parseOctet c
      let d ← parseOctet d
      return ⟨![a, b, c, d]⟩
    | _ => none

/-- `str(address)` -/
def str (a : IPv4Address) : String :=
  String.ofList (['.'].intercalate ((List.ofFn a.octets).map fun octet => Nat.toDigits 10 octet.val))

/-- In 224.0.0.0/4. -/
def isMulticast (a : IPv4Address) : Bool := (a.octets 0).val / 16 = 14

end IPv4Address

/-- A request's fields as JSON; a port of any other type than a number is refused. -/
structure Body where
  cameraAlias : String
  mcastIp : String
  mcastPort : Json
  iface : Option String
  enabled : Bool
  deriving DecidableEq

structure CameraInput where
  cameraAlias : String
  mcastIp : IPv4Address
  mcastPort : ℕ
  iface : Option String
  enabled : Bool
  alias_matches : aliasPattern cameraAlias
  multicast : mcastIp.isMulticast
  port_bounds : 1 ≤ mcastPort ∧ mcastPort ≤ 65535
  iface_matches : ∀ i ∈ iface, ifacePattern i

/-- An `int`, which a float with no fraction is too. -/
def readInt : Json → Option ℤ
  | .null => none
  | .int n => some n
  | .float x => if x.den = 1 then some x.num else none

def validPort (port : Json) : Option ℕ :=
  (readInt port).bind fun n => if 1 ≤ n ∧ n ≤ 65535 then some n.toNat else none

private theorem port_bounds_of_validPort {port : Json} {n : ℕ} (h : validPort port = some n) : 1 ≤ n ∧ n ≤ 65535 := by
  obtain ⟨m, -, hm⟩ := Option.bind_eq_some_iff.mp h
  split at hm
  · cases hm
    omega
  · cases hm

def validIp (ip : String) : Option IPv4Address :=
  (IPv4Address.parse ip).bind fun a => if a.isMulticast then some a else none

def validIface (iface : Option String) : Bool :=
  match blankToNone iface with
  | none => true
  | some i => ifacePattern i

def CameraInput.validate (body : Body) : Option CameraInput :=
  match hip : validIp body.mcastIp, hport : validPort body.mcastPort with
  | some ip, some port =>
    if h : aliasPattern body.cameraAlias ∧ validIface body.iface then
      some {
        cameraAlias := body.cameraAlias
        mcastIp := ip
        mcastPort := port
        iface := blankToNone body.iface
        enabled := body.enabled
        alias_matches := h.1
        multicast := by
          obtain ⟨a, -, ha⟩ := Option.bind_eq_some_iff.mp hip
          split at ha
          next hm => exact Option.some.inj ha ▸ hm
          next => cases ha
        port_bounds := port_bounds_of_validPort hport
        iface_matches := fun i hi => by
          have hv := h.2
          rw [validIface, hi] at hv
          exact hv }
    else none
  | _, _ => none

/-- `_save`: the row of the camera. -/
def save (body : CameraInput) : CameraSync.Camera where
  cameraAlias := body.cameraAlias
  mcastIp := body.mcastIp.str
  mcastPort := body.mcastPort
  iface := body.iface
  enabled := body.enabled

variable {octet : List Char} {v : Fin 256} {s : String} {a : IPv4Address} {body : Body} {accepted : CameraInput}

theorem parseOctet_eq_some : parseOctet octet = some v ↔ Digits octet ∧ octet ≠ [] ∧ octet.length ≤ 3 ∧
    (octet = ['0'] ∨ octet.head? ≠ some '0') ∧ valueOf octet = v := by
  have hd : octet.all Char.isDigit = true ↔ Digits octet := List.all_eq_true
  unfold parseOctet
  split
  next h =>
    rw [Bool.not_eq_true', ← Bool.not_eq_true, hd] at h
    refine iff_of_false (by simp) fun ⟨hdig, hne, hlen, hz, _⟩ => ?_
    rcases h with h | h | h | ⟨h, h'⟩
    · exact hne h
    · exact h hdig
    · omega
    · exact hz.elim h fun hz => hz h'
  next h =>
    rw [Bool.not_eq_true', ← Bool.not_eq_true, hd] at h
    simp only [not_or, not_and_or, not_not, not_lt] at h
    obtain ⟨hne, hdig, hlen, hz⟩ := h
    split
    next hlt => simp [hdig, hne, hlen, hz, Fin.ext_iff]
    next hge =>
      refine iff_of_false (by simp) fun ⟨_, _, _, _, hv⟩ => hge ?_
      rw [hv]
      exact v.isLt

/-- An octet is written as it was read. -/
theorem toDigits_of_parseOctet (h : parseOctet octet = some v) : Nat.toDigits 10 v = octet := by
  obtain ⟨hd, hne, -, hz, hv⟩ := parseOctet_eq_some.mp h
  rw [← hv]
  refine toDigits_valueOf hd hne fun hlen => hz.resolve_left fun he => ?_
  rw [he] at hlen
  simp at hlen

theorem parseOctet_toDigits (v : Fin 256) : parseOctet (Nat.toDigits 10 v) = some v := by
  have hlen : (Nat.toDigits 10 v).length ≤ 3 := (Nat.length_toDigits_le_iff (by decide) (by decide)).mpr (by omega)
  refine parseOctet_eq_some.mpr ⟨digits_toDigits v, Nat.toDigits_ne_nil, hlen, ?_, valueOf_toDigits v⟩
  rcases Nat.eq_zero_or_pos v.val with hv | hv
  · exact .inl (by rw [hv]; rfl)
  · exact .inr (toDigits_ne_zero_head hv)

theorem parseOctet_iff : parseOctet octet = some v ↔ octet = Nat.toDigits 10 v :=
  ⟨fun h => (toDigits_of_parseOctet h).symm, fun h => h ▸ parseOctet_toDigits v⟩

namespace IPv4Address

theorem toList_str (a : IPv4Address) :
    a.str.toList = ['.'].intercalate ((List.ofFn a.octets).map fun octet => Nat.toDigits 10 octet.val) :=
  String.toList_ofList

theorem splitOn_str (a : IPv4Address) :
    a.str.toList.splitOn '.' = (List.ofFn a.octets).map fun octet => Nat.toDigits 10 octet.val := by
  rw [toList_str]
  refine List.splitOn_intercalate '.' (fun l hl hm => ?_) (by simp [List.ofFn_succ])
  obtain ⟨octet, -, rfl⟩ := List.mem_map.mp hl
  exact absurd (digits_toDigits octet _ hm) (by decide)

/-- Exactly the texts addresses are written as are accepted. -/
theorem parse_iff : parse s = some a ↔ s = a.str := by
  constructor
  · intro h
    unfold parse at h
    split at h
    · cases h
    · split at h
      next o₁ o₂ o₃ o₄ hs =>
        simp only [Option.bind_eq_bind, Option.bind_eq_some_iff, parseOctet_iff] at h
        obtain ⟨v₁, rfl, v₂, rfl, v₃, rfl, v₄, rfl, h⟩ := h
        cases h
        have hj : ['.'].intercalate (s.toList.splitOn '.') = s.toList := List.intercalate_splitOn '.'
        rw [← String.toList_inj, toList_str, ← hj, hs]
        rfl
      next => cases h
  · rintro rfl
    have hslash : '/' ∉ a.str.toList := by
      have hd : ∀ v : Fin 256, '/' ∉ Nat.toDigits 10 v := fun v hm => absurd (digits_toDigits v _ hm) (by decide)
      simp [toList_str, List.intercalate, List.ofFn_succ, hd]
    rw [parse, if_neg hslash, splitOn_str]
    simp only [List.ofFn_succ, List.ofFn_zero, List.map_cons, List.map_nil, parseOctet_toDigits]
    refine congrArg some (congrArg IPv4Address.mk (funext fun i => ?_))
    fin_cases i <;> rfl

end IPv4Address

theorem validIp_eq_some : validIp s = some a ↔ s = a.str ∧ a.isMulticast := by
  simp only [validIp, Option.bind_eq_some_iff, IPv4Address.parse_iff]
  constructor
  · rintro ⟨b, hs, hb⟩
    split at hb
    next hm =>
      cases hb
      exact ⟨hs, hm⟩
    next => cases hb
  · rintro ⟨hs, hm⟩
    exact ⟨a, hs, if_pos hm⟩

theorem validIface_of_eq {iface : Option String} (h : accepted.iface = blankToNone iface) : validIface iface := by
  rw [validIface, ← h]
  split
  next => rfl
  next i hi => exact accepted.iface_matches i hi

/-- A request is accepted field by field. -/
theorem validate_eq_some : CameraInput.validate body = some accepted ↔
    (accepted.cameraAlias = body.cameraAlias ∧ validIp body.mcastIp = some accepted.mcastIp ∧
      validPort body.mcastPort = some accepted.mcastPort ∧ accepted.iface = blankToNone body.iface ∧
      accepted.enabled = body.enabled) := by
  unfold CameraInput.validate
  constructor
  · intro h
    split at h
    next ip port hip hport =>
      split at h
      · cases h
        exact ⟨rfl, hip, hport, rfl, rfl⟩
      · cases h
    next => cases h
  · rintro ⟨h₁, h₂, h₃, h₄, h₅⟩
    split
    next ip port hip hport =>
      rw [dif_pos ⟨h₁ ▸ accepted.alias_matches, validIface_of_eq h₄⟩]
      cases accepted
      cases hip.symm.trans h₂
      cases hport.symm.trans h₃
      cases h₁
      cases h₄
      cases h₅
      rfl
    next hn => exact absurd h₃ (hn _ _ h₂)

theorem isSome_validate : (CameraInput.validate body).isSome ↔
    aliasPattern body.cameraAlias ∧ (validIp body.mcastIp).isSome ∧ (validPort body.mcastPort).isSome ∧
      validIface body.iface := by
  refine ⟨fun h => ?_, fun ⟨h₁, h₂, h₃, h₄⟩ => ?_⟩
  · obtain ⟨accepted, h⟩ := Option.isSome_iff_exists.mp h
    obtain ⟨h₁, h₂, h₃, h₄, -⟩ := validate_eq_some.mp h
    exact ⟨h₁ ▸ accepted.alias_matches, by rw [h₂]; rfl, by rw [h₃]; rfl, validIface_of_eq h₄⟩
  · obtain ⟨ip, hip⟩ := Option.isSome_iff_exists.mp h₂
    obtain ⟨port, hport⟩ := Option.isSome_iff_exists.mp h₃
    unfold CameraInput.validate
    split
    next => rw [dif_pos ⟨h₁, h₄⟩]; rfl
    next hn => exact absurd hport (hn _ _ hip)

theorem ifaceChar_of_aliasChar {c : Char} (h : aliasChar c) : ifaceChar c := by
  simp only [aliasChar, ifaceChar, Bool.or_eq_true, beq_iff_eq] at h ⊢
  tauto

theorem forall_of_aliasPattern {s : String} (h : aliasPattern s) : ∀ c ∈ s.toList, ifaceChar c := by
  unfold aliasPattern at h
  split at h
  next => cases h
  next c l hl =>
    simp only [Bool.and_eq_true, List.all_eq_true] at h
    rw [hl, List.forall_mem_cons]
    exact ⟨ifaceChar_of_aliasChar (by simp [aliasChar, h.1.1.1]), fun d hd => ifaceChar_of_aliasChar (h.1.1.2 d hd)⟩

theorem forall_of_ifacePattern {s : String} (h : ifacePattern s) : s.toList ≠ [] ∧ ∀ c ∈ s.toList, ifaceChar c := by
  simp only [ifacePattern, Bool.and_eq_true, List.all_eq_true, decide_eq_true_eq] at h
  refine ⟨fun he => ?_, h.1.1⟩
  rw [he] at h
  simp at h

theorem forall_str (a : IPv4Address) : ∀ c ∈ a.str.toList, ifaceChar c := by
  have hd : ∀ v : Fin 256, ∀ c ∈ Nat.toDigits 10 v.val, ifaceChar c := fun v c hc => by
    simp [ifaceChar, Char.isAlphanum, digits_toDigits v c hc]
  intro c hc
  simp only [IPv4Address.toList_str, List.intercalate, List.ofFn_succ, List.ofFn_zero, List.map_cons, List.map_nil,
    List.intersperse_cons_cons, List.intersperse_singleton, List.flatten_cons, List.flatten_nil, List.mem_append,
    List.mem_singleton] at hc
  rcases hc with hc | rfl | hc | rfl | hc | rfl | hc | hc
  all_goals first
    | exact hd _ c hc
    | decide
    | cases hc

end Kanat.AcceptedCameras
