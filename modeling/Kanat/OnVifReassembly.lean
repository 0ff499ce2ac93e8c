import Mathlib.Data.List.Chain
import Kanat.OnVifParsedOnce

/-! # A message reassembled, however it was cut and whatever order its segments arrive in

Segments may arrive in any order, and ranges of bytes already sent may be sent again. -/
namespace Kanat.OnVif
open DelimitedMatch InsertionOrderDict

/-- A range of a message's bytes, sent as one segment. -/
structure Cut where
  first : ℕ
  last : ℕ
deriving DecidableEq, Repr

namespace Cut

def holds (c : Cut) (i : ℕ) : Bool := c.first ≤ i && i < c.last

def data (text : Bytes) (c : Cut) : Bytes := (text.take c.last).drop c.first

end Cut

def number (isn : BitVec 32) (i : ℕ) : ℤ := (isn + BitVec.ofNat 32 i).toInt

/-- The segments of a text, in the order they arrive in. -/
def arrive (key : TcpKey) (isn : BitVec 32) (text : Bytes) (sessions : StreamReassembler) (cuts : List Cut) :
    StreamReassembler :=
  cuts.foldl (fun sessions c => sessions.addSegment key (number isn c.first) (c.data text)) sessions

/-- Every byte has arrived. -/
def Complete (text : Bytes) (past : List Cut) : Prop := ∀ i < text.length, past.any (·.holds i) = true

/-- The envelope is found once every byte of its message has arrived, and nothing is before. -/
def Reassembles (key : TcpKey) (isn : BitVec 32) (m : Message) (sessions : StreamReassembler) (cuts : List Cut) : Prop :=
  ∀ past, past <+: cuts →
    (Complete m.text past → (arrive key isn m.text sessions past).tryReassembleXml key = some m.envelope) ∧
    (¬Complete m.text past → (arrive key isn m.text sessions past).tryReassembleXml key = none)

/-- The places of the bytes that have arrived, in the order their segments are put in: those of the segments past
number 2 ^ 31 come before the others. -/
def places (isn : BitVec 32) (text : Bytes) (past : List Cut) : List ℕ :=
  (List.range text.length).filter (fun i => past.any fun c => room isn ≤ c.first && c.holds i) ++
    (List.range text.length).filter (fun i => past.any fun c => c.first < room isn && c.holds i)

def byteAt (text : Bytes) (i : ℕ) : UInt8 := text[i]?.getD 0

/-- The places of a message's two tags. -/
def Message.inTag (m : Message) (i : ℕ) : Prop :=
  (m.head.length ≤ i ∧ i < m.head.length + m.pair.opening.length) ∨ (m.ends - m.pair.closing.length ≤ i ∧ i < m.ends)

/-- Two segments overlap only if they begin at one place, and the later is then no shorter. -/
def Apart (cuts : List Cut) : Prop :=
  cuts.Pairwise fun q r => q.last ≤ r.first ∨ r.last ≤ q.first ∨ q.first = r.first ∧ q.last ≤ r.last

instance (cuts : List Cut) : Decidable (Apart cuts) := inferInstanceAs (Decidable (List.Pairwise _ _))

instance (m : Message) (i : ℕ) : Decidable (m.inTag i) := inferInstanceAs (Decidable (_ ∨ _))

/-- What the reassembler needs of the segments: none overlaps another but one that begins where it does and is no
shorter than the one before; the first past number 2 ^ 31 does not begin inside the envelope; and until every byte
has arrived, a byte of a tag has not, and bytes with others missing between them make no tag. -/
structure Unhurt (isn : BitVec 32) (m : Message) (cuts : List Cut) : Prop where
  short : m.text.length ≤ 2 ^ 32
  apart : Apart cuts
  uncut : ∀ c ∈ cuts, room isn ≤ c.first → c.first < m.ends →
    ∃ d ∈ cuts, room isn ≤ d.first ∧ d.first ≤ m.head.length
  missing : ∀ past, past <+: cuts → ¬Complete m.text past → ∃ i, m.inTag i ∧ past.any (·.holds i) = false
  unmade : ∀ past, past <+: cuts → ¬Complete m.text past → ∀ (pair : TagPair) (run : List ℕ),
    run <:+: places isn m.text past →
      run.map (byteAt m.text) = pair.opening ∨ run.map (byteAt m.text) = pair.closing →
        run.IsChain fun i j => j = i + 1

/-- A segment takes the place of the one that begins where it does. -/
@[grind =] def keep (c : Cut) : List Cut → List Cut
  | [] => [c]
  | d :: ds => if d.first = c.first then c :: ds else d :: keep c ds

def kept (cuts : List Cut) : List Cut := cuts.foldl (fun kept c => keep c kept) []

def Cut.entry (isn : BitVec 32) (text : Bytes) (c : Cut) : ℤ × Bytes := (number isn c.first, c.data text)

section
variable {isn : BitVec 32} {text : Bytes} {c d : Cut} {ds cuts : List Cut}

theorem number_injective {i j : ℕ} (hi : i < 2 ^ 32) (hj : j < 2 ^ 32) (h : number isn i = number isn j) : i = j := by
  have heq : BitVec.ofNat 32 i = BitVec.ofNat 32 j := by
    have hsum := BitVec.toInt_inj.mp h
    exact (BitVec.add_right_inj isn).mp hsum
  have hnat := congrArg BitVec.toNat heq
  rwa [BitVec.toNat_ofNat, BitVec.toNat_ofNat, Nat.mod_eq_of_lt hi, Nat.mod_eq_of_lt hj] at hnat

private theorem put_entries (hds : ∀ d ∈ ds, d.first < 2 ^ 32) (hc : c.first < 2 ^ 32) :
    Dict.put (ds.map (Cut.entry isn text)) (number isn c.first) (c.data text) =
      (keep c ds).map (Cut.entry isn text) := by
  induction ds with
  | nil => rfl
  | cons d ds ih =>
    have hd := hds d List.mem_cons_self
    rw [List.map_cons, Dict.put_cons, keep, show (Cut.entry isn text d).1 = number isn d.first from rfl]
    by_cases h : d.first = c.first
    · rw [if_pos h, if_pos (congrArg (number isn) h), h]
      rfl
    · rw [if_neg h, if_neg fun hn => h (number_injective hd hc hn), ih fun d hd => hds d (List.mem_cons_of_mem _ hd)]
      rfl

theorem mem_keep : d ∈ keep c ds → d = c ∨ d ∈ ds := by
  induction ds with
  | nil => simp [keep]
  | cons e ds ih =>
    rw [keep]
    split_ifs
    · exact fun h => (List.mem_cons.mp h).imp id (List.mem_cons_of_mem _)
    · intro h
      rcases List.mem_cons.mp h with rfl | h
      · exact .inr List.mem_cons_self
      · exact (ih h).imp id (List.mem_cons_of_mem _)

theorem keep_self : c ∈ keep c ds := by
  induction ds with
  | nil => exact List.mem_singleton_self c
  | cons e ds ih =>
    rw [keep]
    split_ifs
    · exact List.mem_cons_self
    · exact List.mem_cons_of_mem _ ih

private theorem mem_keep_of_ne (hd : d ∈ ds) (h : d.first ≠ c.first) : d ∈ keep c ds := by
  induction ds with
  | nil => cases hd
  | cons e ds ih =>
    rw [keep]
    split_ifs with he
    · rcases List.mem_cons.mp hd with rfl | hd
      · exact absurd he h
      · exact List.mem_cons_of_mem _ hd
    · rcases List.mem_cons.mp hd with rfl | hd
      · exact List.mem_cons_self
      · exact List.mem_cons_of_mem _ (ih hd)

/-- What is kept of the segments that have arrived: of those that begin at one place, the longest. -/
structure Keeps (past kept : List Cut) : Prop where
  distinct : kept.Pairwise fun c d => c.first ≠ d.first
  arrived : ∀ c ∈ kept, c ∈ past
  longest : ∀ c ∈ past, ∃ d ∈ kept, d.first = c.first ∧ c.last ≤ d.last

private theorem distinct_keep (h : ds.Pairwise fun c d => c.first ≠ d.first) :
    (keep c ds).Pairwise fun c d => c.first ≠ d.first := by
  induction ds with
  | nil => exact List.pairwise_singleton _ c
  | cons d ds ih =>
    obtain ⟨hd, hds⟩ := List.pairwise_cons.mp h
    rw [keep]
    split_ifs with hc
    · exact .cons (fun e he => hc ▸ hd e he) hds
    · refine .cons (fun e he => ?_) (ih hds)
      rcases mem_keep he with rfl | he
      · exact hc
      · exact hd e he

theorem Keeps.step {past : List Cut} (h : Keeps past ds)
    (hapart : ∀ q ∈ past, q.first = c.first → q.last ≤ c.last) : Keeps (past ++ [c]) (keep c ds) := by
  refine ⟨distinct_keep h.distinct, fun d hd => ?_, fun q hq => ?_⟩
  · rcases mem_keep hd with rfl | hd
    · exact List.mem_append_right _ (List.mem_singleton_self d)
    · exact List.mem_append_left _ (h.arrived d hd)
  · rcases List.mem_append.mp hq with hq | hq
    · obtain ⟨d, hd, hfirst, hlast⟩ := h.longest q hq
      by_cases hc : d.first = c.first
      · exact ⟨c, keep_self, (hfirst.symm.trans hc).symm, hapart q hq (hfirst.symm.trans hc)⟩
      · exact ⟨d, mem_keep_of_ne hd hc, hfirst, hlast⟩
    · obtain rfl := List.mem_singleton.mp hq
      exact ⟨q, keep_self, rfl, le_refl q.last⟩

theorem kept_concat (past : List Cut) (c : Cut) : kept (past ++ [c]) = keep c (kept past) := by
  rw [kept, List.foldl_append]
  rfl

/-- Of a segment that has bytes. -/
def Cut.Fits (text : Bytes) (c : Cut) : Prop := c.first < c.last ∧ c.last ≤ text.length

instance (text : Bytes) (c : Cut) : Decidable (c.Fits text) := inferInstanceAs (Decidable (_ ∧ _))

theorem keeps_kept {past : List Cut} (hfits : ∀ c ∈ past, c.Fits text)
    (hapart : Apart past) :
    Keeps past (kept past) := by
  induction past using List.reverseRecOn with
  | nil => exact ⟨.nil, fun _ h => h, fun c hc => absurd hc List.not_mem_nil⟩
  | append_singleton past c ih =>
    obtain ⟨hpast, -, hlast⟩ := List.pairwise_append.mp hapart
    rw [kept_concat]
    refine (ih (fun c hc => hfits c (List.mem_append_left _ hc)) hpast).step fun q hq hfirst => ?_
    have hqc := hlast q hq c (List.mem_singleton_self c)
    have hqfits := hfits q (List.mem_append_left _ hq)
    have hcfits := hfits c (List.mem_append_right _ (List.mem_singleton_self c))
    simp only [Cut.Fits] at hqfits hcfits
    omega

theorem tryReassembleXml_eq (sessions : StreamReassembler) (key : TcpKey) : sessions.tryReassembleXml key =
    extractEnvelope (((sessions.get key).getD []).getOrderedPayload) := by
  rw [StreamReassembler.tryReassembleXml]
  cases sessions.get key with
  | none =>
    simp only [Option.getD_none, SessionBuffer.getOrderedPayload, List.mergeSort_nil, List.flatMap_nil]
    rfl
  | some session => rfl

theorem getD_addSegment (sessions : StreamReassembler) (key : TcpKey) (seq : ℤ) {data : Bytes} (h : data.length ≠ 0) :
    ((sessions.addSegment key seq data).get key).getD [] = ((sessions.get key).getD []).addSegment seq data := by
  rw [StreamReassembler.addSegment, if_neg h, Dict.get_put_self]
  rfl

private theorem length_data (hfits : c.Fits text) : (c.data text).length = c.last - c.first := by
  simp only [Cut.Fits] at hfits
  simp only [Cut.data, List.length_drop, List.length_take]
  omega

private theorem mem_kept {past : List Cut} (hd : d ∈ kept past) : d ∈ past := by
  induction past using List.reverseRecOn with
  | nil => exact hd
  | append_singleton past c ih =>
    rw [kept_concat] at hd
    rcases mem_keep hd with rfl | hd
    · exact List.mem_append_right _ (List.mem_singleton_self d)
    · exact List.mem_append_left _ (ih hd)

/-- The segments a session holds. -/
theorem getD_arrive {key : TcpKey} {sessions : StreamReassembler} (hfresh : (sessions.get key).getD [] = [])
    (hshort : text.length ≤ 2 ^ 32) {past : List Cut} (hfits : ∀ c ∈ past, c.Fits text) :
    ((arrive key isn text sessions past).get key).getD [] = (kept past).map (Cut.entry isn text) := by
  have hfirst {c : Cut} (hc : c.Fits text) : c.first < 2 ^ 32 := by
    simp only [Cut.Fits] at hc
    omega
  induction past using List.reverseRecOn with
  | nil => exact hfresh
  | append_singleton past c ih =>
    have hc := hfits c (List.mem_append_right _ (List.mem_singleton_self c))
    have hpast : ∀ c ∈ past, c.Fits text := fun c hc => hfits c (List.mem_append_left _ hc)
    have hlength : (c.data text).length ≠ 0 := by
      rw [length_data hc]
      simp only [Cut.Fits] at hc
      omega
    have hconcat : arrive key isn text sessions (past ++ [c]) =
        (arrive key isn text sessions past).addSegment key (number isn c.first) (c.data text) := by
      rw [arrive, List.foldl_append]
      rfl
    rw [hconcat, getD_addSegment _ _ _ hlength, ih hpast, kept_concat]
    exact put_entries (fun d hd => hfirst (hpast d (mem_kept hd))) (hfirst hc)

theorem map_byteAt_range' {first count : ℕ} (h : first + count ≤ text.length) :
    (List.range' first count).map (byteAt text) = (text.drop first).take count := by
  refine List.ext_getElem (by simp; omega) fun i hi hi' => ?_
  have hin : first + i < text.length := by
    simp only [List.length_map, List.length_range'] at hi
    omega
  simp only [List.getElem_map, List.getElem_range', List.getElem_take, List.getElem_drop, byteAt, Nat.one_mul,
    List.getElem?_eq_getElem hin, Option.getD_some]

private theorem data_eq (hfits : c.Fits text) :
    c.data text = (List.range' c.first (c.last - c.first)).map (byteAt text) := by
  simp only [Cut.Fits] at hfits
  rw [map_byteAt_range' (by omega), Cut.data, List.drop_take]

/-- Segments in the order of their places. -/
theorem places_eq (hfits : ∀ c ∈ ds, c.Fits text) (hsorted : ds.Pairwise fun c d => c.last ≤ d.first) :
    ds.flatMap (fun c => List.range' c.first (c.last - c.first)) =
      (List.range text.length).filter fun i => ds.any (·.holds i) := by
  have hlt : (ds.flatMap fun c => List.range' c.first (c.last - c.first)).Pairwise (· < ·) := by
    refine List.pairwise_flatMap.mpr ⟨fun c _ => List.pairwise_lt_range', hsorted.imp fun hle i hi j hj => ?_⟩
    simp only [List.mem_range'_1] at hi hj
    omega
  refine hlt.eq_of_mem_iff (List.pairwise_lt_range.filter _) fun i => ?_
  simp only [List.mem_flatMap, List.mem_range'_1, List.mem_filter, List.mem_range, List.any_eq_true, Cut.holds,
    Bool.and_eq_true, decide_eq_true_eq]
  constructor
  · rintro ⟨c, hc, hin⟩
    have hcfits := hfits c hc
    simp only [Cut.Fits] at hcfits
    exact ⟨by omega, c, hc, by omega⟩
  · rintro ⟨-, c, hc, hin⟩
    exact ⟨c, hc, by omega⟩

theorem Apart.disjoint {past : List Cut} (h : Apart past) (hc : c ∈ past) (hd : d ∈ past) (hne : c.first ≠ d.first) :
    c.last ≤ d.first ∨ d.last ≤ c.first := by
  have hsym : ∀ c ∈ past, ∀ d ∈ past, c.first = d.first ∨ c.last ≤ d.first ∨ d.last ≤ c.first := fun c hc d hd =>
    List.Pairwise.forall_of_forall_of_flip (R := fun c d => c.first = d.first ∨ c.last ≤ d.first ∨ d.last ≤ c.first)
      (fun _ _ => .inl rfl) (h.imp fun h => by omega) (h.imp fun h => by dsimp only [flip]; omega) hc hd
  exact (hsym c hc d hd).resolve_left hne

private theorem number_of_lt {i : ℕ} (hi : i < 2 ^ 32) (h : i < room isn) : number isn i = isn.toInt + i := by
  rw [number, toInt_numbered hi, if_pos h]

private theorem number_of_le {i : ℕ} (hi : i < 2 ^ 32) (h : room isn ≤ i) : number isn i = isn.toInt + i - 2 ^ 32 := by
  rw [number, toInt_numbered hi, if_neg (not_lt.mpr h)]

theorem flatMap_data (hfits : ∀ c ∈ ds, c.Fits text) : ds.flatMap (·.data text) =
    (ds.flatMap fun c => List.range' c.first (c.last - c.first)).map (byteAt text) := by
  rw [List.map_flatMap]
  exact List.flatMap_congr fun c hc => data_eq (hfits c hc)

/-- What is kept, in the order of places. -/
def inPlace (past : List Cut) : List Cut := (kept past).mergeSort fun c d => c.first ≤ d.first

theorem mem_inPlace {past : List Cut} : c ∈ inPlace past ↔ c ∈ kept past := List.mem_mergeSort

theorem inPlace_sorted {past : List Cut} (hfits : ∀ c ∈ past, c.Fits text) (hapart : Apart past) :
    (inPlace past).Pairwise fun c d => c.first < d.first ∧ c.last ≤ d.first := by
  have hkeeps := keeps_kept hfits hapart
  have hle : (inPlace past).Pairwise fun c d => decide (c.first ≤ d.first) = true :=
    List.pairwise_mergeSort (fun a b c => by simpa using Nat.le_trans) (fun a b => by simpa using Nat.le_total _ _) _
  have hdistinct : (inPlace past).Pairwise fun c d => c.first ≠ d.first :=
    ((List.mergeSort_perm _ _).pairwise_iff fun h => h.symm).mpr hkeeps.distinct
  refine (hle.and hdistinct).imp_of_mem fun hc hd h => ?_
  have hin {c : Cut} (hc : c ∈ inPlace past) : c ∈ past := hkeeps.arrived c (mem_inPlace.mp hc)
  have hcd := hapart.disjoint (hin hc) (hin hd) h.2
  have hle := of_decide_eq_true h.1
  have hcfits := hfits _ (hin hc)
  have hdfits := hfits _ (hin hd)
  simp only [Cut.Fits] at hcfits hdfits
  omega

/-- The places the segments of one side of number 2 ^ 31 hold. -/
theorem places_side {past : List Cut} (hfits : ∀ c ∈ past, c.Fits text) (hapart : Apart past) (side : ℕ → Bool) :
    ((inPlace past).filter fun c => side c.first).flatMap (fun c => List.range' c.first (c.last - c.first)) =
      (List.range text.length).filter fun i => past.any fun c => side c.first && c.holds i := by
  have hkeeps := keeps_kept hfits hapart
  have hin {c : Cut} (hc : c ∈ (inPlace past).filter fun c => side c.first) : c ∈ past ∧ side c.first = true :=
    ⟨hkeeps.arrived c (mem_inPlace.mp (List.mem_filter.mp hc).1), (List.mem_filter.mp hc).2⟩
  rw [places_eq (fun c hc => hfits c (hin hc).1) (((inPlace_sorted hfits hapart).imp And.right).filter _)]
  refine List.filter_congr fun i _ => Bool.eq_iff_iff.mpr ?_
  simp only [List.any_eq_true, Bool.and_eq_true]
  constructor
  · rintro ⟨c, hc, hi⟩
    exact ⟨c, (hin hc).1, (hin hc).2, hi⟩
  · rintro ⟨c, hc, hside, hi⟩
    obtain ⟨d, hd, hfirst, hlast⟩ := hkeeps.longest c hc
    refine ⟨d, List.mem_filter.mpr ⟨mem_inPlace.mpr hd, hfirst ▸ hside⟩, ?_⟩
    simp only [Cut.holds, Bool.and_eq_true, decide_eq_true_eq] at hi ⊢
    omega

/-- The bytes a session holds, side by side. -/
theorem payload_eq {past : List Cut} (hshort : text.length ≤ 2 ^ 32) (hfits : ∀ c ∈ past, c.Fits text)
    (hapart : Apart past) : SessionBuffer.getOrderedPayload ((kept past).map (Cut.entry isn text)) =
      (places isn text past).map (byteAt text) := by
  have hkeeps := keeps_kept hfits hapart
  have hin : ∀ c ∈ inPlace past, c.Fits text := fun c hc => hfits c (hkeeps.arrived c (mem_inPlace.mp hc))
  have hfirst {c : Cut} (hc : c ∈ inPlace past) : c.first < 2 ^ 32 := by
    have hcfits := hin c hc
    simp only [Cut.Fits] at hcfits
    omega
  have hlate := places_side hfits hapart fun i => room isn ≤ i
  have hearly := places_side hfits hapart fun i => i < room isn
  set late := (inPlace past).filter fun c => room isn ≤ c.first
  set early := (inPlace past).filter fun c => c.first < room isn
  have hsplit : early = (inPlace past).filter fun c => !decide (room isn ≤ c.first) :=
    List.filter_congr fun c _ => by rw [← decide_not]; exact decide_eq_decide.mpr not_le.symm
  have hperm : ((kept past).map (Cut.entry isn text)).Perm ((late ++ early).map (Cut.entry isn text)) := by
    rw [hsplit]
    exact ((List.mergeSort_perm _ _).symm.trans (List.filter_append_perm _ _).symm).map _
  have hkeys : ((late ++ early).map (Cut.entry isn text)).Pairwise fun a b => a.1 < b.1 := by
    have hlateNumber {c : Cut} (hc : c ∈ late) : number isn c.first = isn.toInt + c.first - 2 ^ 32 :=
      number_of_le (hfirst (List.mem_filter.mp hc).1) (of_decide_eq_true (List.mem_filter.mp hc).2)
    have hearlyNumber {c : Cut} (hc : c ∈ early) : number isn c.first = isn.toInt + c.first :=
      number_of_lt (hfirst (List.mem_filter.mp hc).1) (of_decide_eq_true (List.mem_filter.mp hc).2)
    have hsorted := (inPlace_sorted hfits hapart).imp And.left
    refine List.pairwise_map.mpr (List.pairwise_append.mpr ⟨?_, ?_, fun c hc d hd => ?_⟩)
    · refine (hsorted.filter _).imp_of_mem fun hc hd hlt => ?_
      simp only [Cut.entry, hlateNumber hc, hlateNumber hd]
      omega
    · refine (hsorted.filter _).imp_of_mem fun hc hd hlt => ?_
      simp only [Cut.entry, hearlyNumber hc, hearlyNumber hd]
      omega
    · have hlt := hfirst (List.mem_filter.mp hc).1
      simp only [Cut.entry, hlateNumber hc, hearlyNumber hd]
      omega
  rw [SessionBuffer.getOrderedPayload, mergeSort_eq hperm hkeys, List.flatMap_map, places, List.map_append, ← hlate,
    ← hearly, ← flatMap_data fun c hc => hin c (List.mem_filter.mp hc).1,
    ← flatMap_data fun c hc => hin c (List.mem_filter.mp hc).1, ← List.flatMap_append]
  rfl

variable {m : Message}

private theorem extractEnvelope_of_matches {whole : Bytes} (hown : matchOf m.pair whole = some m.envelope)
    (hother : ∀ pair, pair ≠ m.pair → matchOf pair whole = none) : extractEnvelope whole = some m.envelope := by
  rw [extractEnvelope_eq]
  cases hpair : m.pair with
  | soapEnv => rw [← hpair, hown, Option.some_or]
  | s => rw [hother .soapEnv (by simp [hpair]), ← hpair, hown, Option.none_or]

/-- A message turned outside its envelope. -/
theorem extractEnvelope_turnedOutside {k : ℕ} (hk : k ≤ m.head.length ∨ m.ends ≤ k) :
    extractEnvelope (m.text.drop k ++ m.text.take k) = some m.envelope := by
  have hfresh (pair : TagPair) : Fresh pair.opening (m.text.take k) := fresh_opening.of_prefix (List.take_prefix k _)
  refine extractEnvelope_of_matches ?_ fun pair hpair => ?_
  · rcases hk with hk | hk
    · have hdrop : m.text.drop k ++ m.text.take k = m.head.drop k ++ (m.pair.opening ++ (m.content ++
          (m.pair.closing ++ (m.tail ++ m.text.take k)))) := by
        conv_lhs => rw [Message.text, List.drop_append_of_le_length hk, ← Message.text]
        simp only [List.append_assoc]
      rw [hdrop]
      refine firstMatch_delimited m.pair.opening_ne_nil m.pair.closing_ne_nil (fun h => ?_) fun h => ?_
      · exact m.opensOnce.1 (h.trans (List.suffix_append_self_iff.mpr (List.drop_suffix k _)).isInfix)
      · refine m.closesOnce.1 (h.trans ⟨m.head ++ m.pair.opening, [], ?_⟩)
        simp only [List.append_assoc, List.append_nil]
    · have hlength : (m.head ++ m.envelope).length = m.ends := by simp [Message.ends]
      have hdrop : m.text.drop k <:+ m.tail := by
        rw [text_eq, List.drop_append, List.drop_eq_nil_of_le (by omega), List.nil_append]
        exact List.drop_suffix _ _
      have htake : m.text.take k = m.head ++ (m.pair.opening ++ (m.content ++ (m.pair.closing ++
          m.tail.take (k - m.ends)))) := by
        rw [text_eq, List.take_append, List.take_of_length_le (by omega), hlength, Message.envelope]
        simp only [List.append_assoc]
      rw [matchOf, firstMatch_append_of_not_infix (fun h => ?_) (hfresh m.pair), htake]
      · refine firstMatch_delimited m.pair.opening_ne_nil m.pair.closing_ne_nil (fun h => ?_) fun h => ?_
        · exact m.opensOnce.1 h
        · refine m.closesOnce.1 (h.trans ⟨m.head ++ m.pair.opening, [], ?_⟩)
          simp only [List.append_assoc, List.append_nil]
      · refine m.opensOnce.2 (h.trans (hdrop.trans ⟨m.pair.opening.tail ++ (m.content ++ m.pair.closing), ?_⟩).isInfix)
        simp only [List.append_assoc]
  · refine firstMatch_eq_none_of_opening (not_infix_append (fun h => ?_) (fun h => ?_) (hfresh pair))
    · exact (m.noOther pair hpair).1 (h.trans (List.drop_suffix k _).isInfix)
    · exact (m.noOther pair hpair).1 (h.trans (List.take_prefix k _).isInfix)

/-- The first place at or past number 2 ^ 31 where a segment begins, or else the text's end. -/
theorem exists_turn (hfits : ∀ c ∈ cuts, c.Fits text) (isn : BitVec 32) : ∃ k ≤ text.length,
    (k < text.length → ∃ c ∈ cuts, c.first = k ∧ room isn ≤ c.first) ∧ ∀ c ∈ cuts, room isn ≤ c.first → k ≤ c.first := by
  by_cases hlate : ∃ k, ∃ c ∈ cuts, c.first = k ∧ room isn ≤ c.first
  · obtain ⟨c, hc, hfirst, hroom⟩ := Nat.find_spec hlate
    have hcfits := hfits c hc
    simp only [Cut.Fits] at hcfits
    exact ⟨Nat.find hlate, by omega, fun _ => ⟨c, hc, hfirst, hroom⟩, fun d hd hroom => Nat.find_min' hlate ⟨d, hd, rfl, hroom⟩⟩
  · exact ⟨text.length, le_refl _, fun h => absurd h (lt_irrefl _),
      fun c hc hroom => absurd ⟨c.first, c, hc, rfl, hroom⟩ hlate⟩

/-- Where every byte has arrived, the bytes are turned there. -/
theorem places_complete {past : List Cut} {k : ℕ} (hapart : Apart past) (hcomplete : Complete text past)
    (hk : k ≤ text.length) (hfirst : k < text.length → ∃ c ∈ past, c.first = k ∧ room isn ≤ c.first)
    (hleast : ∀ c ∈ past, room isn ≤ c.first → k ≤ c.first) (hfits : ∀ c ∈ past, c.Fits text) :
    (places isn text past).map (byteAt text) = text.drop k ++ text.take k := by
  have hholder {i : ℕ} (hi : i < text.length) : ∃ c ∈ past, c.first ≤ i ∧ i < c.last := by
    simpa [Cut.holds] using hcomplete i hi
  -- a segment that holds a byte past the turn begins there too, or it would hold the turn
  have hside {i : ℕ} {c : Cut} (hc : c ∈ past) (hci : c.first ≤ i ∧ i < c.last) (hi : i < text.length) :
      room isn ≤ c.first ↔ k ≤ i := by
    refine ⟨fun hroom => (hleast c hc hroom).trans hci.1, fun hki => ?_⟩
    obtain ⟨d, hd, hdfirst, hdroom⟩ := hfirst (lt_of_le_of_lt hki hi)
    by_contra hroom
    have hdisjoint := hapart.disjoint hc hd (by omega)
    have hdfits := hfits d hd
    simp only [Cut.Fits] at hdfits
    omega
  have hlate : (List.range text.length).filter (fun i => past.any fun c => room isn ≤ c.first && c.holds i) =
      List.range' k (text.length - k) := by
    refine (List.pairwise_lt_range.filter _).eq_of_mem_iff List.pairwise_lt_range' fun i => ?_
    simp only [List.mem_filter, List.mem_range, List.mem_range'_1, List.any_eq_true, Cut.holds, Bool.and_eq_true,
      decide_eq_true_eq]
    constructor
    · rintro ⟨hi, c, hc, hroom, hci⟩
      have := (hside hc hci hi).mp hroom
      omega
    · intro hi
      obtain ⟨c, hc, hci⟩ := hholder (i := i) (by omega)
      exact ⟨by omega, c, hc, (hside hc hci (by omega)).mpr hi.1, hci⟩
  have hearly : (List.range text.length).filter (fun i => past.any fun c => c.first < room isn && c.holds i) =
      List.range' 0 k := by
    refine (List.pairwise_lt_range.filter _).eq_of_mem_iff List.pairwise_lt_range' fun i => ?_
    simp only [List.mem_filter, List.mem_range, List.mem_range'_1, List.any_eq_true, Cut.holds, Bool.and_eq_true,
      decide_eq_true_eq]
    constructor
    · rintro ⟨hi, c, hc, hroom, hci⟩
      have := (hside hc hci hi).not.mp (by omega)
      omega
    · intro hi
      obtain ⟨c, hc, hci⟩ := hholder (i := i) (by omega)
      exact ⟨by omega, c, hc, not_le.mp ((hside hc hci (by omega)).not.mpr (by omega)), hci⟩
  rw [places, hlate, hearly, List.map_append, map_byteAt_range' (by omega), map_byteAt_range' (by omega), List.drop_zero,
    List.take_of_length_le (by simp)]

/-- What stands in one place alone is found there. -/
theorem Once.length_eq {p before after before' after' : Bytes} (h : Once p before after)
    (heq : before' ++ (p ++ after') = before ++ (p ++ after)) : before'.length = before.length := by
  have hlength := congrArg List.length heq
  simp only [List.length_append] at hlength
  rcases lt_trichotomy before'.length before.length with hlt | heq' | hgt
  · have hfound : before' ++ p <+: before ++ (p ++ after) := by
      rw [← heq, ← List.append_assoc]
      exact List.prefix_append _ _
    have hcut : before ++ p.dropLast <+: before ++ (p ++ after) :=
      (List.prefix_append_right_inj _).mpr ((List.dropLast_prefix p).trans (List.prefix_append _ _))
    have hinside := List.prefix_of_prefix_length_le hfound hcut (by
      simp only [List.length_append, List.length_dropLast]
      omega)
    exact absurd ((List.suffix_append _ _).isInfix.trans hinside.isInfix) h.1
  · exact heq'
  · have hfound : p ++ after' <:+ before ++ (p ++ after) := by
      rw [← heq]
      exact List.suffix_append _ _
    have hcut : p.tail ++ after <:+ before ++ (p ++ after) :=
      (List.suffix_append_self_iff.mpr (List.tail_suffix p)).trans (List.suffix_append _ _)
    have hinside := List.suffix_of_suffix_length_le hfound hcut (by
      simp only [List.length_append, List.length_tail]
      omega)
    exact absurd ((List.prefix_append _ _).isInfix.trans hinside.isInfix) h.2

private theorem eq_range'_of_isChain {i : ℕ} {run : List ℕ} (h : (i :: run).IsChain fun i j => j = i + 1) :
    i :: run = List.range' i (run.length + 1) := by
  induction run generalizing i with
  | nil => rfl
  | cons j run ih =>
    obtain ⟨rfl, htail⟩ := List.isChain_cons_cons.mp h
    exact congrArg (i :: ·) (ih htail)

theorem mem_places {past : List Cut} {i : ℕ} (h : i ∈ places isn text past) :
    i < text.length ∧ past.any (·.holds i) = true := by
  simp only [places, List.mem_append, List.mem_filter, List.mem_range, List.any_eq_true, Bool.and_eq_true] at h ⊢
  rcases h with ⟨hi, c, hc, -, hci⟩ | ⟨hi, c, hc, -, hci⟩
  · exact ⟨hi, c, hc, hci⟩
  · exact ⟨hi, c, hc, hci⟩

/-- A tag among the bytes side by side whose bytes follow each other stands in the text, and has arrived there. -/
theorem tag_arrived {past : List Cut} {tag : Bytes} (hne : tag ≠ []) {run : List ℕ} (hrun : run <:+: places isn text past)
    (htag : run.map (byteAt text) = tag) (hchain : run.IsChain fun i j => j = i + 1) :
    ∃ before after, text = before ++ (tag ++ after) ∧
      ∀ i, before.length ≤ i → i < before.length + tag.length → past.any (·.holds i) = true := by
  cases run with
  | nil => exact absurd htag.symm hne
  | cons first run =>
    have hrange := eq_range'_of_isChain hchain
    have hlast : first + run.length < text.length := by
      refine (mem_places (hrun.subset ?_)).1
      rw [hrange, List.mem_range'_1]
      omega
    have hlength : run.length + 1 = tag.length := by
      rw [← htag, List.length_map, List.length_cons]
    rw [hrange, map_byteAt_range' (by omega)] at htag
    refine ⟨text.take first, text.drop (first + (run.length + 1)), ?_, fun i hi hi' => ?_⟩
    · rw [← htag, ← List.drop_drop, List.take_append_drop, List.take_append_drop]
    · rw [List.length_take, min_eq_left (by omega)] at hi hi'
      refine (mem_places (hrun.subset ?_)).2
      rw [hrange, List.mem_range'_1]
      omega

/-- Nothing is found among bytes that lack a byte of a tag and make none. -/
theorem extractEnvelope_missing {past : List Cut} (hmissing : ∃ i, m.inTag i ∧ past.any (·.holds i) = false)
    (hunmade : ∀ (pair : TagPair) (run : List ℕ), run <:+: places isn m.text past →
      run.map (byteAt m.text) = pair.opening ∨ run.map (byteAt m.text) = pair.closing →
        run.IsChain fun i j => j = i + 1) :
    extractEnvelope ((places isn m.text past).map (byteAt m.text)) = none := by
  have hopening (pair : TagPair) (h : pair.opening <:+: (places isn m.text past).map (byteAt m.text)) :
      ∃ before after, m.text = before ++ (pair.opening ++ after) ∧
        ∀ i, before.length ≤ i → i < before.length + pair.opening.length → past.any (·.holds i) = true := by
    obtain ⟨run, hrun, htag⟩ := List.infix_map_iff.mp h
    exact tag_arrived pair.opening_ne_nil hrun htag.symm (hunmade pair run hrun (.inl htag.symm))
  have hclosing (h : m.pair.closing <:+: (places isn m.text past).map (byteAt m.text)) :
      ∃ before after, m.text = before ++ (m.pair.closing ++ after) ∧
        ∀ i, before.length ≤ i → i < before.length + m.pair.closing.length → past.any (·.holds i) = true := by
    obtain ⟨run, hrun, htag⟩ := List.infix_map_iff.mp h
    exact tag_arrived m.pair.closing_ne_nil hrun htag.symm (hunmade m.pair run hrun (.inr htag.symm))
  have hown : matchOf m.pair ((places isn m.text past).map (byteAt m.text)) = none := by
    by_cases ho : m.pair.opening <:+: (places isn m.text past).map (byteAt m.text)
    · refine firstMatch_eq_none_of_closing m.pair.closing_ne_nil fun hc => ?_
      obtain ⟨before, after, htext, harrived⟩ := hopening m.pair ho
      obtain ⟨before', after', htext', harrived'⟩ := hclosing hc
      have hbefore := m.opensOnce.length_eq (htext.symm.trans rfl)
      have hbefore' := m.closesOnce.length_eq (htext'.symm.trans text_eq_closing)
      have hends : m.ends - m.pair.closing.length = (m.head ++ (m.pair.opening ++ m.content)).length := by
        simp only [Message.ends, Message.envelope, List.length_append]
        omega
      obtain ⟨i, htag, hlost⟩ := hmissing
      have hheld : past.any (·.holds i) = true := by
        rcases htag with hi | hi
        · exact harrived i (by omega) (by omega)
        · exact harrived' i (by omega) (by omega)
      rw [hheld] at hlost
      cases hlost
    · exact firstMatch_eq_none_of_opening ho
  have hother : ∀ pair, pair ≠ m.pair → matchOf pair ((places isn m.text past).map (byteAt m.text)) = none := by
    refine fun pair hpair => firstMatch_eq_none_of_opening fun h => ?_
    obtain ⟨before, after, htext, -⟩ := hopening pair h
    exact (m.noOther pair hpair).1 ⟨before, after, by rw [List.append_assoc]; exact htext.symm⟩
  rw [extractEnvelope_eq]
  cases hpair : m.pair with
  | soapEnv => rw [← hpair, hown, hother .s (by simp [hpair]), Option.or_none]
  | s => rw [hother .soapEnv (by simp [hpair]), ← hpair, hown, Option.or_none]

theorem reassembles {key : TcpKey} {sessions : StreamReassembler} (hfresh : (sessions.get key).getD [] = [])
    (hfits : ∀ c ∈ cuts, c.Fits m.text) (h : Unhurt isn m cuts) : Reassembles key isn m sessions cuts := by
  intro past hpast
  have hpastFits : ∀ c ∈ past, c.Fits m.text := fun c hc => hfits c (hpast.subset hc)
  have hapart : Apart past := h.apart.sublist hpast.sublist
  rw [tryReassembleXml_eq, getD_arrive hfresh h.short hpastFits, payload_eq h.short hpastFits hapart]
  refine ⟨fun hcomplete => ?_, fun hcomplete =>
    extractEnvelope_missing (h.missing past hpast hcomplete) (h.unmade past hpast hcomplete)⟩
  obtain ⟨k, hk, hfirst, hleast⟩ := exists_turn hpastFits isn
  rw [places_complete hapart hcomplete hk hfirst hleast hpastFits]
  refine extractEnvelope_turnedOutside ?_
  by_contra hinside
  -- the turn is where a segment begins, inside the envelope, so one past number 2 ^ 31 begins before it
  have hends := ends_le m
  obtain ⟨c, hc, rfl, hroom⟩ := hfirst (by omega)
  obtain ⟨d, hd, hdroom, hdhead⟩ := h.uncut c (hpast.subset hc) hroom (by omega)
  have hdfits := hfits d hd
  simp only [Cut.Fits] at hdfits
  obtain ⟨e, he, hheld⟩ := List.any_eq_true.mp (hcomplete d.first (by omega))
  simp only [Cut.holds, Bool.and_eq_true, decide_eq_true_eq] at hheld
  by_cases hed : e.first = d.first
  · have := hleast e he (hed ▸ hdroom)
    omega
  · have := h.apart.disjoint (hpast.subset he) hd hed
    omega

/-- The first half of the message comes twice, before the second. -/
def halves : List Cut := [⟨0, 20⟩, ⟨0, 20⟩, ⟨20, 41⟩]

theorem begun_halves {past : List Cut} (hpast : past <+: halves) (hcomplete : ¬Complete poll.text past) :
    past.any (·.holds 20) = false ∧ (places (-6) poll.text past).IsChain fun i j => j = i + 1 := by
  rcases List.prefix_cons_iff.mp hpast with rfl | ⟨past₁, rfl, hpast₁⟩
  · decide
  rcases List.prefix_cons_iff.mp hpast₁ with rfl | ⟨past₂, rfl, hpast₂⟩
  · decide
  rcases List.prefix_cons_iff.mp hpast₂ with rfl | ⟨past₃, rfl, hpast₃⟩
  · decide
  · obtain rfl := List.prefix_nil.mp hpast₃
    have hall : Complete poll.text [⟨0, 20⟩, ⟨0, 20⟩, ⟨20, 41⟩] := by
      unfold Complete
      decide
    exact absurd hall hcomplete

theorem reassembles_halves : Reassembles camera (-6) poll [] halves := by
  refine reassembles rfl (by decide) ⟨by decide, by decide, by decide,
    fun _ hpast hcomplete => ⟨20, by decide, (begun_halves hpast hcomplete).1⟩,
    fun _ hpast hcomplete _ _ hrun _ => ?_⟩
  obtain ⟨before, after, hrun⟩ := hrun
  have hchain := (begun_halves hpast hcomplete).2
  rw [← hrun] at hchain
  exact hchain.left_of_append.right_of_append

/-- The message's middle comes last. -/
def middleLast : List Cut := [⟨0, 24⟩, ⟨26, 41⟩, ⟨24, 26⟩]

/-- An envelope that lacks its middle is found before the middle has come. -/
theorem not_reassembles_middleLast :
    (arrive camera 0 poll.text [] [⟨0, 24⟩, ⟨26, 41⟩]).tryReassembleXml camera =
        some (bytes "<s:Envelope>om</s:Envelope>") ∧
      ¬Complete poll.text [⟨0, 24⟩, ⟨26, 41⟩] ∧ ¬Reassembles camera 0 poll [] middleLast := by
  have hearly : (arrive camera 0 poll.text [] [⟨0, 24⟩, ⟨26, 41⟩]).tryReassembleXml camera =
      some (bytes "<s:Envelope>om</s:Envelope>") := by
    rw [tryReassembleXml_eq, getD_arrive rfl (by decide) (by decide), payload_eq (by decide) (by decide) (by decide)]
    decide
  have hmissing : ¬Complete poll.text [⟨0, 24⟩, ⟨26, 41⟩] := by
    unfold Complete
    decide
  refine ⟨hearly, hmissing, fun h => ?_⟩
  have hnone := (h [⟨0, 24⟩, ⟨26, 41⟩] (by decide)).2 hmissing
  rw [hearly] at hnone
  cases hnone

end

end Kanat.OnVif
