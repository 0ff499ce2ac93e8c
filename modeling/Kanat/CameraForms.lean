import Kanat.AcceptedCameras

/-! # The form of a camera

`utils/cameraValidation.ts`, against the schema of the request it is sent as. -/
namespace Kanat.CameraForms
open AcceptedCameras JsNumbers PlainTexts

structure CameraForm where
  cameraAlias : String
  mcastIp : String
  mcastPort : String
  iface : String
  enabled : Bool
  deriving DecidableEq

/-- A camera as the frontend sends it. -/
structure Input where
  cameraAlias : String
  mcastIp : String
  mcastPort : Number
  iface : Option String
  enabled : Bool
  deriving DecidableEq

structure CameraFormErrors where
  cameraAlias : Option String
  mcastIp : Option String
  mcastPort : Option String
  iface : Option String
  deriving DecidableEq

/-- `25[0-5]|2[0-4]\d|1?\d?\d` -/
def octetPattern : List Char → Bool
  | [a] => a.isDigit
  | [a, b] => a.isDigit && b.isDigit
  | [a, b, c] => a == '2' && b == '5' && ('0' ≤ c && c ≤ '5') || a == '2' && ('0' ≤ b && b ≤ '4') && c.isDigit ||
      a == '1' && b.isDigit && c.isDigit
  | _ => false

/-- `IPV4`: an octet has no dot. -/
def ipv4 (ip : String) : Bool :=
  let octets := ip.toList.splitOn '.'
  octets.length == 4 && octets.all octetPattern

def isMulticast (ip : String) : Bool :=
  let first := toNumber (String.ofList ((ip.toList.splitOn '.').headD []))
  ipv4 ip && first.ge 224 && first.le 239

def toInput (form : CameraForm) : Input where
  cameraAlias := trim form.cameraAlias
  mcastIp := trim form.mcastIp
  mcastPort := toNumber form.mcastPort
  iface := if trim form.iface = "" then none else some (trim form.iface)
  enabled := form.enabled

/-- Of a stored camera, as the API gives it. -/
def toForm (camera : CameraSync.Camera) : CameraForm where
  cameraAlias := camera.cameraAlias
  mcastIp := camera.mcastIp
  mcastPort := toString camera.mcastPort
  iface := camera.iface.getD ""
  enabled := camera.enabled

def aliasOk (form : CameraForm) : Bool := aliasPattern (trim form.cameraAlias)

def portOk (form : CameraForm) : Bool :=
  let port := toNumber form.mcastPort
  !(trim form.mcastPort = "" || !port.isInteger || port.lt 1 || port.gt 65535)

def ifaceOk (form : CameraForm) : Bool := trim form.iface = "" || ifacePattern (trim form.iface)

def validateCamera (form : CameraForm) : CameraFormErrors where
  cameraAlias :=
    if aliasOk form then none
    else some "2–63 characters: letters, digits, - and _, starting with a letter or digit"
  mcastIp :=
    if isMulticast (trim form.mcastIp) then none
    else some "A multicast group (224.0.0.0 – 239.255.255.255), e.g. 226.226.226.112"
  mcastPort := if portOk form then none else some "A port from 1 to 65535"
  iface := if ifaceOk form then none else some "An interface name, e.g. eth1 or enp2s0"

/-- The request's JSON. -/
def Input.body (input : Input) : Body where
  cameraAlias := input.cameraAlias
  mcastIp := input.mcastIp
  mcastPort := input.mcastPort.json
  iface := input.iface
  enabled := input.enabled

variable {form : CameraForm}

theorem validateCamera_eq : validateCamera form = ⟨none, none, none, none⟩ ↔
    aliasOk form ∧ isMulticast (trim form.mcastIp) ∧ portOk form ∧ ifaceOk form := by
  simp [validateCamera]

/-- Two digits, the first a zero. -/
def zeroLed : List Char → Bool
  | [a, b] => a == '0' && b.isDigit
  | _ => false

theorem char_eq_iff {c d : Char} : c = d ↔ c.toNat = d.toNat := Char.toNat_inj.symm

private theorem char_le_iff {c d : Char} : c ≤ d ↔ c.toNat ≤ d.toNat := by
  rw [Char.le_def, UInt32.le_iff_toNat_le]
  rfl

theorem isSome_parseOctet {octet : List Char} : (parseOctet octet).isSome ↔ Digits octet ∧ octet ≠ [] ∧
    octet.length ≤ 3 ∧ (octet = ['0'] ∨ octet.head? ≠ some '0') ∧ valueOf octet < 256 := by
  rw [Option.isSome_iff_exists]
  simp only [parseOctet_eq_some]
  constructor
  · rintro ⟨v, hd, hne, hlen, hz, hv⟩
    exact ⟨hd, hne, hlen, hz, hv ▸ v.isLt⟩
  · rintro ⟨hd, hne, hlen, hz, hv⟩
    exact ⟨⟨valueOf octet, hv⟩, hd, hne, hlen, hz, rfl⟩

/-- The form takes the octets `ipaddress` takes, and those of two digits that begin with a zero. -/
theorem octetPattern_iff (octet : List Char) :
    octetPattern octet ↔ zeroLed octet ∨ (parseOctet octet).isSome := by
  rw [isSome_parseOctet]
  match octet with
  | [] => simp [octetPattern, zeroLed]
  | [a] =>
    have ha := isDigit_iff (c := a)
    simp [octetPattern, zeroLed, digits_cons, valueOf, Nat.ofDigitChars_cons, char_eq_iff, ha]
    omega
  | [a, b] =>
    have ha := isDigit_iff (c := a)
    have hb := isDigit_iff (c := b)
    simp [octetPattern, zeroLed, digits_cons, valueOf, Nat.ofDigitChars_cons, char_eq_iff, ha, hb]
    omega
  | [a, b, c] =>
    have ha := isDigit_iff (c := a)
    have hb := isDigit_iff (c := b)
    have hc := isDigit_iff (c := c)
    simp [octetPattern, zeroLed, digits_cons, valueOf, Nat.ofDigitChars_cons, char_eq_iff, char_le_iff, ha, hb, hc]
    omega
  | a :: b :: c :: d :: l => simp [octetPattern, zeroLed]

private theorem parseOctet_zeroLed {octet : List Char} (h : zeroLed octet) : parseOctet octet = none := by
  rw [← Option.not_isSome_iff_eq_none, isSome_parseOctet]
  match octet with
  | [a, b] =>
    simp only [zeroLed, Bool.and_eq_true, beq_iff_eq] at h
    simp [h.1]

private theorem first_number (a : IPv4Address) :
    toNumber (String.ofList ((a.str.toList.splitOn '.').headD [])) = .finite (a.octets 0).val := by
  have hh : (a.str.toList.splitOn '.').headD [] = Nat.toDigits 10 (a.octets 0).val := by
    rw [IPv4Address.splitOn_str]
    rfl
  rw [hh, toNumber_digits (digits_toDigits _) Nat.toDigits_ne_nil (by rw [valueOf_toDigits]; omega),
    valueOf_toDigits]

/-- Four octets of the API's are the address they write. -/
theorem exists_eq_str {ip : String} (h4 : (ip.toList.splitOn '.').length = 4)
    (hp : ∀ octet ∈ ip.toList.splitOn '.', (parseOctet octet).isSome) : ∃ a : IPv4Address, ip = a.str := by
  obtain ⟨o₁, o₂, o₃, o₄, hs⟩ : ∃ o₁ o₂ o₃ o₄, ip.toList.splitOn '.' = [o₁, o₂, o₃, o₄] := by
    match hs : ip.toList.splitOn '.' with
    | [o₁, o₂, o₃, o₄] => exact ⟨o₁, o₂, o₃, o₄, rfl⟩
    | [] | [_] | [_, _] | [_, _, _] | _ :: _ :: _ :: _ :: _ :: _ =>
      rw [hs] at h4
      simp at h4
  have hv : ∀ octet ∈ [o₁, o₂, o₃, o₄], ∃ v : Fin 256, octet = Nat.toDigits 10 v := fun octet ho => by
    obtain ⟨v, hv⟩ := Option.isSome_iff_exists.mp (hp octet (hs ▸ ho))
    exact ⟨v, parseOctet_iff.mp hv⟩
  obtain ⟨v₁, rfl⟩ := hv o₁ (by simp)
  obtain ⟨v₂, rfl⟩ := hv o₂ (by simp)
  obtain ⟨v₃, rfl⟩ := hv o₃ (by simp)
  obtain ⟨v₄, rfl⟩ := hv o₄ (by simp)
  refine ⟨⟨![v₁, v₂, v₃, v₄]⟩, ?_⟩
  have hj : ['.'].intercalate (ip.toList.splitOn '.') = ip.toList := List.intercalate_splitOn '.'
  rw [← String.toList_inj, IPv4Address.toList_str, ← hj, hs]
  rfl

theorem parseOctet_of_mem {a : IPv4Address} {octet : List Char} (h : octet ∈ a.str.toList.splitOn '.') :
    (parseOctet octet).isSome := by
  rw [IPv4Address.splitOn_str] at h
  obtain ⟨v, -, rfl⟩ := List.mem_map.mp h
  rw [parseOctet_toDigits]
  rfl

theorem isMulticast_str (a : IPv4Address) : isMulticast a.str = a.isMulticast := by
  have h4 : ipv4 a.str := by
    simp only [ipv4, Bool.and_eq_true, List.all_eq_true, beq_iff_eq]
    refine ⟨by rw [IPv4Address.splitOn_str]; rfl, fun octet ho => ?_⟩
    exact (octetPattern_iff octet).mpr (.inr (parseOctet_of_mem ho))
  have hlow : (224 : ℚ) ≤ (a.octets 0).val ↔ 224 ≤ (a.octets 0).val := by exact_mod_cast Iff.rfl
  have hup : ((a.octets 0).val : ℚ) ≤ 239 ↔ (a.octets 0).val ≤ 239 := by exact_mod_cast Iff.rfl
  rw [isMulticast, h4, first_number, Bool.eq_iff_iff]
  simp only [Number.ge, Number.le, Number.compare, Bool.true_and, Bool.and_eq_true, decide_eq_true_eq, hlow, hup,
    IPv4Address.isMulticast]
  omega

/-- The form's addresses are the API's, but for octets of two digits that begin with a zero. -/
theorem isSome_validIp (ip : String) :
    (validIp ip).isSome ↔ isMulticast ip ∧ ∀ octet ∈ ip.toList.splitOn '.', ¬zeroLed octet := by
  constructor
  · intro h
    obtain ⟨a, ha⟩ := Option.isSome_iff_exists.mp h
    obtain ⟨rfl, hm⟩ := validIp_eq_some.mp ha
    refine ⟨(isMulticast_str a).trans hm, fun octet ho hz => ?_⟩
    have hp := parseOctet_of_mem ho
    rw [parseOctet_zeroLed hz] at hp
    cases hp
  · rintro ⟨hm, hz⟩
    have h4 : ipv4 ip := by
      simp only [isMulticast, Bool.and_eq_true] at hm
      exact hm.1.1
    simp only [ipv4, Bool.and_eq_true, List.all_eq_true, beq_iff_eq] at h4
    obtain ⟨a, rfl⟩ := exists_eq_str h4.1 fun octet ho =>
      ((octetPattern_iff octet).mp (h4.2 octet ho)).resolve_left (hz octet ho)
    rw [validIp_eq_some.mpr ⟨rfl, (isMulticast_str a).symm.trans hm⟩]
    rfl

private theorem readInt_json (x : ℚ) : readInt (Number.finite x).json = if x.den = 1 then some x.num else none := by
  unfold Number.json
  by_cases h : x.den = 1
  · by_cases hx : |x| < 10 ^ 21
    · simp [h, hx, readInt]
    · simp [h, hx, readInt]
  · simp [h, readInt]

theorem validPort_json_eq_some {number : Number} {n : ℕ} :
    validPort number.json = some n ↔ number = .finite n ∧ 1 ≤ n ∧ n ≤ 65535 := by
  cases number with
  | nan => simp [validPort, Number.json, readInt]
  | infinity negative => simp [validPort, Number.json, readInt]
  | finite x =>
    rw [validPort, readInt_json, Number.finite.injEq]
    by_cases hx : x.den = 1
    · have he : x = x.num := (Rat.coe_int_num_of_den_eq_one hx).symm
      rw [if_pos hx, Option.bind_some, he]
      have hn : ((x.num : ℚ) = n) ↔ x.num = n := by exact_mod_cast Iff.rfl
      rw [hn, Rat.num_intCast]
      split
      next h =>
        rw [Option.some.injEq]
        omega
      next h => exact iff_of_false (by simp) (by omega)
    · rw [if_neg hx]
      refine iff_of_false (by simp) fun ⟨he, _⟩ => hx ?_
      rw [he]
      exact Rat.den_natCast n

private theorem portOk_iff (form : CameraForm) : portOk form ↔ (validPort (toNumber form.mcastPort).json).isSome := by
  simp only [Option.isSome_iff_exists, validPort_json_eq_some, portOk]
  by_cases hb : trim form.mcastPort = ""
  · rw [toNumber_of_blank hb]
    refine iff_of_false (by simp [hb]) fun ⟨n, he, hn, _⟩ => ?_
    have h0 : (0 : ℚ) = n := Number.finite.inj he
    have h0 : 0 = n := by exact_mod_cast h0
    omega
  · cases toNumber form.mcastPort with
    | nan => simp [Number.isInteger]
    | infinity negative => simp [Number.isInteger]
    | finite x =>
      simp only [hb, Number.isInteger, Number.lt, Number.gt, Number.compare, decide_false, Bool.false_or,
        Bool.not_or, Bool.not_not, Bool.and_eq_true, decide_eq_true_eq, Bool.not_eq_true', decide_eq_false_iff_not,
        not_lt, Number.finite.injEq]
      constructor
      · rintro ⟨⟨hd, hlow⟩, hup⟩
        have he : x = x.num := (Rat.coe_int_num_of_den_eq_one hd).symm
        rw [he] at hlow hup
        have hlow : 1 ≤ x.num := by exact_mod_cast hlow
        have hup : x.num ≤ 65535 := by exact_mod_cast hup
        obtain ⟨n, hn⟩ := Int.eq_ofNat_of_zero_le (by omega : 0 ≤ x.num)
        rw [hn, Int.cast_natCast] at he
        exact ⟨n, he, by omega, by omega⟩
      · rintro ⟨n, rfl, hlow, hup⟩
        exact ⟨⟨Rat.den_natCast n, by exact_mod_cast hlow⟩, by exact_mod_cast hup⟩

/-- No character of an alias or an interface is blank to either side. -/
theorem plain_of_ifaceChar {c : Char} (h : ifaceChar c) : ¬isWhiteSpace c ∧ ¬isspace c := by
  have hr : 33 ≤ c.toNat ∧ c.toNat ≤ 126 := by
    simp only [ifaceChar, Bool.or_eq_true, beq_iff_eq] at h
    rcases h with (((h | rfl) | rfl) | rfl) | rfl
    · have := isAlphanum_range h
      omega
    all_goals decide
  simp only [isWhiteSpace, isspace, Bool.or_eq_true, Bool.and_eq_true, decide_eq_true_eq, beq_iff_eq]
  omega

theorem trim_eq_self {s : String} (h : ∀ c ∈ s.toList, ifaceChar c) : trim s = s := by
  rw [trim, strip_of_forall fun c hc => (plain_of_ifaceChar (h c hc)).1, String.ofList_toList]

/-- Only of what Python strips and JavaScript does not, at its ends at least. -/
def oddBlank (form : CameraForm) : Bool := trim form.iface ≠ "" && (trim form.iface).toList.all isspace

theorem blankToNone_iface (form : CameraForm) : blankToNone (toInput form).iface =
    if trim form.iface = "" ∨ oddBlank form then none else some (trim form.iface) := by
  have hs : strip isspace (trim form.iface).toList = [] ↔ (trim form.iface).toList.all isspace := by
    rw [strip_eq_nil, List.all_eq_true]
  by_cases h : trim form.iface = ""
  · simp [toInput, h, blankToNone]
  · have hi : (toInput form).iface = some (trim form.iface) := if_neg h
    rw [hi]
    simp only [blankToNone, hs, oddBlank, h, false_or, ne_eq, not_false_eq_true, decide_true, Bool.true_and]

private theorem not_oddBlank {form : CameraForm} (h : ifaceOk form) : ¬oddBlank form := by
  intro ho
  simp only [oddBlank, Bool.and_eq_true, decide_eq_true_eq, List.all_eq_true] at ho
  simp only [ifaceOk, Bool.or_eq_true, decide_eq_true_eq] at h
  obtain ⟨hne, hc⟩ := forall_of_ifacePattern (h.resolve_left ho.1)
  obtain ⟨c, hm⟩ := List.exists_mem_of_ne_nil _ hne
  exact (plain_of_ifaceChar (hc c hm)).2 (ho.2 c hm)

theorem validIface_iff (form : CameraForm) : validIface (toInput form).iface ↔ ifaceOk form ∨ oddBlank form := by
  rw [validIface, blankToNone_iface]
  by_cases h : trim form.iface = ""
  · simp [h, ifaceOk]
  · by_cases ho : oddBlank form
    · simp [ho]
    · simp [h, ho, ifaceOk]

def zeroLedOctet (form : CameraForm) : Bool := ((trim form.mcastIp).toList.splitOn '.').any zeroLed

/-- A stored camera, put back, is the input it was stored from. -/
theorem toInput_toForm {form : CameraForm} {accepted : CameraInput}
    (h : CameraInput.validate (toInput form).body = some accepted) (ho : ¬oddBlank form) :
    toInput (toForm (save accepted)) = toInput form := by
  obtain ⟨ha, hip, hport, hi, he⟩ := validate_eq_some.mp h
  have ha : accepted.cameraAlias = trim form.cameraAlias := ha
  obtain ⟨hip : trim form.mcastIp = accepted.mcastIp.str, -⟩ := validIp_eq_some.mp hip
  obtain ⟨hport : toNumber form.mcastPort = .finite accepted.mcastPort, hp⟩ := validPort_json_eq_some.mp hport
  have hi : accepted.iface = if trim form.iface = "" then none else some (trim form.iface) := by
    rw [hi]
    change blankToNone (toInput form).iface = _
    rw [Bool.not_eq_true] at ho
    simp only [blankToNone_iface, ho, Bool.false_eq_true, or_false]
  have hnum : toNumber (toString accepted.mcastPort) = .finite accepted.mcastPort := by
    have hv := valueOf_toDigits accepted.mcastPort
    rw [Nat.toString_eq_ofList_toDigits, toNumber_digits (digits_toDigits _) Nat.toDigits_ne_nil (by rw [hv]; omega),
      hv]
  have hiface : (if trim (accepted.iface.getD "") = "" then none else some (trim (accepted.iface.getD ""))) =
      if trim form.iface = "" then none else some (trim form.iface) := by
    rw [hi]
    by_cases hb : trim form.iface = ""
    · rw [if_pos hb, Option.getD_none, if_pos (trim_eq_self (by simp))]
    · have hm := accepted.iface_matches (trim form.iface) (by rw [hi, if_neg hb]; rfl)
      rw [if_neg hb, Option.getD_some, trim_eq_self (forall_of_ifacePattern hm).2, if_neg hb]
  simp only [toInput, toForm, save, hnum, hport, hiface, he, Input.body, ha, hip, trim_eq_self (forall_str _)]
  rw [trim_eq_self (forall_of_aliasPattern (ha ▸ accepted.alias_matches))]

/-- The form finds no error just where the API accepts, and what is stored comes back the same. -/
def Agrees (form : CameraForm) : Prop :=
  (validateCamera form = ⟨none, none, none, none⟩ ↔ (CameraInput.validate (toInput form).body).isSome) ∧
    ∀ accepted, CameraInput.validate (toInput form).body = some accepted →
      toInput (toForm (save accepted)) = toInput form

theorem isSome_validate_toInput (form : CameraForm) : (CameraInput.validate (toInput form).body).isSome ↔
    aliasOk form ∧ (isMulticast (trim form.mcastIp) ∧ ¬zeroLedOctet form) ∧ portOk form ∧
      (ifaceOk form ∨ oddBlank form) := by
  rw [isSome_validate, portOk_iff, ← validIface_iff, zeroLedOctet, List.any_eq_true]
  have hip := isSome_validIp (trim form.mcastIp)
  simp only [not_exists, not_and]
  rw [← hip]
  rfl

/-- The form takes 239.1.01.1, which the API refuses. -/
theorem not_agrees : ¬∀ form, Agrees form := by
  intro h
  have hiff := (h ⟨"cam1", "239.1.01.1", "5004", "", true⟩).1
  have hport : toNumber "5004" = .finite 5004 := toNumber_digits (l := "5004".toList) (by decide) (by decide) (by decide)
  have hfirst : toNumber "239" = .finite 239 := toNumber_digits (l := "239".toList) (by decide) (by decide) (by decide)
  have hok : validateCamera ⟨"cam1", "239.1.01.1", "5004", "", true⟩ = ⟨none, none, none, none⟩ := by
    have hip : trim "239.1.01.1" = "239.1.01.1" := by decide
    have h4 : ipv4 "239.1.01.1" = true := by decide
    have hh : String.ofList (("239.1.01.1".toList.splitOn '.').headD []) = "239" := by decide
    have hb : trim "5004" ≠ "" := by decide
    refine validateCamera_eq.mpr ⟨by decide, ?_, ?_, by decide⟩
    · rw [hip, isMulticast, h4, hh, hfirst]
      norm_num [Number.ge, Number.le, Number.compare]
    · rw [portOk, hport]
      norm_num [hb, Number.isInteger, Number.lt, Number.gt, Number.compare]
  exact ((isSome_validate_toInput _).mp (hiff.mp hok)).2.1.2 (by decide)

/-- They agree unless an octet of two digits begins with a zero, or the interface is blank to Python alone, in a form
whose other fields are right. -/
theorem form_agrees_iff (form : CameraForm) : Agrees form ↔
    ¬(aliasOk form ∧ portOk form ∧ isMulticast (trim form.mcastIp) ∧
      (zeroLedOctet form ∧ ifaceOk form ∨ ¬zeroLedOctet form ∧ oddBlank form)) := by
  have hboth : ¬(ifaceOk form ∧ oddBlank form) := fun h => not_oddBlank h.1 h.2
  have hsome := isSome_validate_toInput form
  rw [Agrees, validateCamera_eq]
  constructor
  · rintro ⟨hiff, -⟩ ⟨ha, hp, hm, hz | hz⟩
    · exact (hsome.mp (hiff.mp ⟨ha, hm, hp, hz.2⟩)).2.1.2 hz.1
    · exact hboth ⟨(hiff.mpr (hsome.mpr ⟨ha, ⟨hm, hz.1⟩, hp, .inr hz.2⟩)).2.2.2, hz.2⟩
  · intro hn
    refine ⟨⟨fun ⟨ha, hm, hp, hi⟩ => ?_, fun h => ?_⟩, fun accepted h => ?_⟩
    · exact hsome.mpr ⟨ha, ⟨hm, fun hz => hn ⟨ha, hp, hm, .inl ⟨hz, hi⟩⟩⟩, hp, .inl hi⟩
    · obtain ⟨ha, ⟨hm, hz⟩, hp, hi | hi⟩ := hsome.mp h
      · exact ⟨ha, hm, hp, hi⟩
      · exact absurd ⟨ha, hp, hm, .inr ⟨hz, hi⟩⟩ hn
    · obtain ⟨ha, ⟨hm, hz⟩, hp, -⟩ := hsome.mp (by rw [h]; rfl)
      exact toInput_toForm h fun ho => hn ⟨ha, hp, hm, .inr ⟨hz, ho⟩⟩

end Kanat.CameraForms
