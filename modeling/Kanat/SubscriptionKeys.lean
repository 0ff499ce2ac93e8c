import Kanat.PlainTexts
import Mathlib.Tactic.SplitIfs

/-! # The keys that packets and stream requests meet by

`lower` is what the runtime's lower case makes of one character; it depends on the culture. -/
namespace Kanat.SubscriptionKeys
open PlainTexts

abbrev Text := List Char

inductive DataPipes where
  | motion | onVIF | safety
  deriving DecidableEq

def DataPipes.text : DataPipes → Text
  | .motion => "Motion".toList
  | .onVIF => "OnVIF".toList
  | .safety => "Safety".toList

def boolText (b : Bool) : Text := if b then "True".toList else "False".toList

def intText (n : ℤ) : Text := if n < 0 then '-' :: Nat.toDigits 10 n.natAbs else Nat.toDigits 10 n.natAbs

structure StreamRequestDto where
  dataPipe : DataPipes
  description : Text
  isCmd : Option Bool := some false
  axis : Option ℤ := some 0
  intervalMs : Option ℤ := none

namespace StreamRequestDto
variable (lower : Char → Char) (request : StreamRequestDto)

def buildSubscriptionKey : Text :=
  let key := request.dataPipe.text ++ '|' :: request.description ++
    '|' :: (request.isCmd.elim "false".toList boolText)
  (if request.dataPipe = .motion then key ++ '|' :: request.axis.elim [] intText else key).map lower

end StreamRequestDto

/-- A captured packet; `V` is its numbers. -/
inductive PacketEntity (V : Type) where
  | motion (axis : ℤ) (value : Option V)
  | onVIF (zoom measurement : Option V)
  | safety (state : Text)

structure BasePacketEntity (V : Type) where
  ticks : ℕ
  isCmd : Bool
  description : Text
  entity : PacketEntity V

namespace BasePacketEntity
variable {V : Type} (lower : Char → Char) (packet : BasePacketEntity V)

def dataPipe : DataPipes :=
  match packet.entity with
  | .motion .. => .motion
  | .onVIF .. => .onVIF
  | .safety .. => .safety

def getSubscriptionKey : Text :=
  (match packet.entity with
    | .motion axis _ => DataPipes.motion.text ++ '|' :: packet.description ++ '|' :: boolText packet.isCmd ++
        '|' :: intText axis
    | .onVIF .. => DataPipes.onVIF.text ++ '|' :: packet.description ++ '|' :: boolText packet.isCmd
    | .safety .. => DataPipes.safety.text ++ '|' :: packet.description ++ '|' :: boolText packet.isCmd).map lower

end BasePacketEntity

/-- What any culture's lower case does to the characters that keys are built with; that of `I` depends on it. -/
structure Lowers (lower : Char → Char) : Prop where
  bar : ∀ c, lower c = '|' ↔ c = '|'
  letters : ∀ c, c.isAlpha && c != 'I' → lower c = c.toLower
  digits : ∀ c, c.isDigit ∨ c = '-' → lower c = c

/-- The packets a request is for: of its pipe, of its description whatever the case, commands or reports, and of its
axis where they have one. -/
structure Selects {V : Type} (lower : Char → Char) (request : StreamRequestDto) (packet : BasePacketEntity V) :
    Prop where
  dataPipe : request.dataPipe = packet.dataPipe
  description : request.description.map lower = packet.description.map lower
  isCmd : request.isCmd.getD false = packet.isCmd
  axis : ∀ axis value, packet.entity = .motion axis value → request.axis = some axis

variable {V : Type} {lower : Char → Char} {request : StreamRequestDto} {packet : BasePacketEntity V}

private theorem intText_injective : Function.Injective intText := by
  have hdash (n k : ℕ) : '-' :: Nat.toDigits 10 n ≠ Nat.toDigits 10 k := by
    intro h
    have hdigit : '-'.isDigit := digits_toDigits k _ (h ▸ List.mem_cons_self)
    exact absurd hdigit (by decide)
  have hvalue {n k : ℕ} (h : Nat.toDigits 10 n = Nat.toDigits 10 k) : n = k := by
    rw [← valueOf_toDigits n, h, valueOf_toDigits]
  intro a b h
  unfold intText at h
  split_ifs at h with ha hb hb
  · have habs := hvalue (List.cons_eq_cons.mp h).2
    omega
  · exact absurd h (hdash _ _)
  · exact absurd h.symm (hdash _ _)
  · have habs := hvalue h
    omega

theorem digit_or_dash_of_mem_intText {n : ℤ} {c : Char} (hc : c ∈ intText n) : c.isDigit ∨ c = '-' := by
  unfold intText at hc
  split_ifs at hc
  · rcases List.mem_cons.mp hc with hdash | hdigit
    · exact .inr hdash
    · exact .inl (digits_toDigits _ _ hdigit)
  · exact .inl (digits_toDigits _ _ hc)

theorem intText_ne_nil (n : ℤ) : intText n ≠ [] := by
  unfold intText
  split_ifs
  · exact List.cons_ne_nil _ _
  · exact Nat.toDigits_ne_nil

/-- The bar before the last field. -/
theorem append_bar_inj {xs ys us vs : Text} (hus : '|' ∉ us) (hvs : '|' ∉ vs) :
    xs ++ '|' :: us = ys ++ '|' :: vs ↔ xs = ys ∧ us = vs := by
  constructor
  · intro h
    have hparts := congrArg (rpartition '|') h
    rw [rpartition_append xs hus, rpartition_append ys hvs, Prod.mk.injEq] at hparts
    exact hparts
  · rintro ⟨rfl, rfl⟩
    rfl

/-- The bar after the first. -/
theorem bar_append_inj {xs ys us vs : Text} (hxs : '|' ∉ xs) (hys : '|' ∉ ys) :
    xs ++ '|' :: us = ys ++ '|' :: vs ↔ xs = ys ∧ us = vs := by
  have hfirst {l m : Text} (hl : '|' ∉ l) : (l ++ '|' :: m).takeWhile (· ≠ '|') = l := by
    have hne : ∀ c ∈ l, decide (c ≠ '|') = true := fun c hc => decide_eq_true fun heq => hl (heq ▸ hc)
    rw [List.takeWhile_append_of_pos hne, List.takeWhile_cons_of_neg (by simp), List.append_nil]
  constructor
  · intro h
    have hxy := congrArg (List.takeWhile (· ≠ '|')) h
    rw [hfirst hxs, hfirst hys] at hxy
    subst hxy
    exact ⟨rfl, (List.cons_eq_cons.mp (List.append_cancel_left h)).2⟩
  · rintro ⟨rfl, rfl⟩
    rfl

namespace Lowers
variable (h : Lowers lower)
include h

theorem notMem_map {l : Text} : '|' ∉ l.map lower ↔ '|' ∉ l := by
  simp [h.bar]

theorem map_intText (n : ℤ) : (intText n).map lower = intText n :=
  (List.map_congr_left fun c hc => h.digits c (digit_or_dash_of_mem_intText hc)).trans (List.map_id _)

theorem map_letters {l : Text} (hl : l.all fun c => c.isAlpha && c != 'I') :
    l.map lower = l.map Char.toLower :=
  List.map_congr_left fun c hc => h.letters c (List.all_eq_true.mp hl c hc)

theorem map_boolText (b : Bool) : (boolText b).map lower = if b then "true".toList else "false".toList := by
  cases b
  · exact h.map_letters rfl
  · exact h.map_letters rfl

theorem map_isCmd (isCmd : Option Bool) : (isCmd.elim "false".toList boolText).map lower =
    (boolText (isCmd.getD false)).map lower := by
  cases isCmd with
  | none => rw [h.map_boolText]; exact h.map_letters rfl
  | some b => rfl

private theorem dataPipe_injective {p q : DataPipes} (hpq : p.text.map lower = q.text.map lower) : p = q := by
  have hmotion : DataPipes.motion.text.map lower = "motion".toList := h.map_letters rfl
  have hsafety : DataPipes.safety.text.map lower = "safety".toList := h.map_letters rfl
  have hlength := congrArg List.length hpq
  rw [List.length_map, List.length_map] at hlength
  cases p <;> cases q
  all_goals first
    | rfl
    | exact absurd hlength (by decide)
    | skip
  · rw [hmotion, hsafety] at hpq
    exact absurd hpq (by decide)
  · rw [hmotion, hsafety] at hpq
    exact absurd hpq (by decide)

theorem bar_notMem (p : DataPipes) (b : Bool) (n : ℤ) : '|' ∉ p.text.map lower ∧
    '|' ∉ (boolText b).map lower ∧ '|' ∉ (intText n).map lower := by
  refine ⟨h.notMem_map.mpr ?_, h.notMem_map.mpr ?_, h.notMem_map.mpr fun hbar => ?_⟩
  · cases p <;> decide
  · cases b <;> decide
  · exact absurd (digit_or_dash_of_mem_intText hbar) (by decide)

end Lowers

theorem Lowers.boolText_injective (h : Lowers lower) {a b : Bool}
    (hab : (boolText a).map lower = (boolText b).map lower) : a = b := by
  rw [h.map_boolText, h.map_boolText] at hab
  cases a <;> cases b
  · rfl
  · exact absurd hab (by decide)
  · exact absurd hab (by decide)
  · rfl

/-- What follows the pipe. -/
def fields (lower : Char → Char) (dataPipe : DataPipes) (description : Text) (isCmd : Bool) (axis : Option ℤ) : Text :=
  let fields := description.map lower ++ '|' :: (boolText isCmd).map lower
  if dataPipe = .motion then fields ++ '|' :: axis.elim [] intText else fields

def BasePacketEntity.axis (packet : BasePacketEntity V) : Option ℤ :=
  match packet.entity with
  | .motion axis _ => some axis
  | _ => none

private theorem buildSubscriptionKey_eq (h : Lowers lower) : request.buildSubscriptionKey lower =
    request.dataPipe.text.map lower ++
      '|' :: fields lower request.dataPipe request.description (request.isCmd.getD false) request.axis := by
  have hbar : lower '|' = '|' := (h.bar '|').mpr rfl
  have haxis : (request.axis.elim [] intText).map lower = request.axis.elim [] intText := by
    cases request.axis with
    | none => rfl
    | some axis => exact h.map_intText axis
  unfold StreamRequestDto.buildSubscriptionKey fields
  dsimp only
  split_ifs with hmotion
  · rw [List.map_append, List.map_append, List.map_append, List.map_cons, List.map_cons, List.map_cons, hbar,
      h.map_isCmd, haxis, List.append_assoc, List.append_assoc, List.cons_append, List.append_assoc]
  · rw [List.map_append, List.map_append, List.map_cons, List.map_cons, hbar, h.map_isCmd, List.append_assoc,
      List.cons_append]

private theorem getSubscriptionKey_eq (h : Lowers lower) : packet.getSubscriptionKey lower =
    packet.dataPipe.text.map lower ++
      '|' :: fields lower packet.dataPipe packet.description packet.isCmd packet.axis := by
  have hbar : lower '|' = '|' := (h.bar '|').mpr rfl
  unfold BasePacketEntity.getSubscriptionKey fields BasePacketEntity.dataPipe BasePacketEntity.axis
  cases packet.entity with
  | motion axis value => simp [hbar, h.map_intText]
  | onVIF zoom measurement => simp [hbar]
  | safety state => simp [hbar]

theorem fields_inj (h : Lowers lower) {dataPipe : DataPipes} {description description' : Text} {isCmd isCmd' : Bool}
    {axis axis' : Option ℤ} :
    fields lower dataPipe description isCmd axis = fields lower dataPipe description' isCmd' axis' ↔
      description.map lower = description'.map lower ∧ isCmd = isCmd' ∧ (dataPipe = .motion → axis = axis') := by
  have hflags (b : Bool) : '|' ∉ (boolText b).map lower := (h.bar_notMem .motion b 0).2.1
  have hisCmd : (boolText isCmd).map lower = (boolText isCmd').map lower ↔ isCmd = isCmd' :=
    ⟨h.boolText_injective, fun heq => heq ▸ rfl⟩
  have haxes (axis : Option ℤ) : '|' ∉ axis.elim [] intText := by
    cases axis with
    | none => exact List.not_mem_nil
    | some axis => exact h.notMem_map.mp (h.bar_notMem .motion true axis).2.2
  have haxis : axis.elim [] intText = axis'.elim [] intText ↔ axis = axis' := by
    cases axis <;> cases axis'
    · exact iff_of_true rfl rfl
    · exact iff_of_false (intText_ne_nil _).symm nofun
    · exact iff_of_false (intText_ne_nil _) nofun
    · exact intText_injective.eq_iff.trans Option.some_inj.symm
  unfold fields
  split_ifs with hmotion
  · rw [append_bar_inj (haxes _) (haxes _), append_bar_inj (hflags _) (hflags _), hisCmd, haxis]
    simp [hmotion, and_assoc]
  · rw [append_bar_inj (hflags _) (hflags _), hisCmd]
    simp [hmotion]

/-- Packets of the request's stream are those that it selects. -/
theorem key_eq_iff (h : Lowers lower) :
    request.buildSubscriptionKey lower = packet.getSubscriptionKey lower ↔ Selects lower request packet := by
  have hpipes (p : DataPipes) : '|' ∉ p.text.map lower := (h.bar_notMem p true 0).1
  rw [buildSubscriptionKey_eq h, getSubscriptionKey_eq h, bar_append_inj (hpipes _) (hpipes _)]
  constructor
  · rintro ⟨hpipe, hfields⟩
    have hdataPipe := h.dataPipe_injective hpipe
    rw [hdataPipe, fields_inj h] at hfields
    obtain ⟨hdescription, hisCmd, haxis⟩ := hfields
    refine ⟨hdataPipe, hdescription, hisCmd, fun axis value hmotion => ?_⟩
    rw [haxis (by rw [BasePacketEntity.dataPipe, hmotion]), BasePacketEntity.axis, hmotion]
  · rintro ⟨hdataPipe, hdescription, hisCmd, haxis⟩
    rw [hdataPipe, fields_inj h]
    refine ⟨rfl, hdescription, hisCmd, fun hmotion => ?_⟩
    unfold BasePacketEntity.dataPipe at hmotion
    unfold BasePacketEntity.axis
    cases hentity : packet.entity with
    | motion axis value => exact haxis axis value hentity
    | onVIF zoom measurement => simp [hentity] at hmotion
    | safety state => simp [hentity] at hmotion

end Kanat.SubscriptionKeys
