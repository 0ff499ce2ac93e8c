import Mathlib.Algebra.Group.Int.Defs
import Mathlib.Algebra.Group.Nat.Defs
import Kanat.OnVifMessages
import Mathlib.Data.List.Sort
import Mathlib.Data.List.TakeDrop

/-! # What the reassembler holds of one TCP stream, segment after segment

Sequence numbers count bytes modulo 2 ^ 32, and the segments that come after number 2 ^ 31 are put
before the others. -/
namespace Kanat.OnVif
open InsertionOrderDict

/-- How many bytes of a stream come before number 2 ^ 31. -/
def room (isn : BitVec 32) : ℕ :=
  (2 ^ 31 - isn.toInt).toNat

/-- Segments by the number each begins at, as a signed number. -/
def numbered (isn : BitVec 32) (before : ℕ) : List Bytes → List (ℤ × Bytes)
  | [] => []
  | data :: datas =>
      ((isn + BitVec.ofNat 32 before).toInt, data) :: numbered isn (before + data.length) datas

/-- The segments that begin before the room is used up. -/
@[grind =] def early (room before : ℕ) : List Bytes → List Bytes
  | [] => []
  | data :: datas => if before < room then data :: early room (before + data.length) datas else []

@[grind =] def late (room before : ℕ) : List Bytes → List Bytes
  | [] => []
  | data :: datas =>
      if before < room then late room (before + data.length) datas else data :: datas

def placed (base : ℤ) : List Bytes → List (ℤ × Bytes)
  | [] => []
  | data :: datas => (base, data) :: placed (base + data.length) datas

section
variable {isn : BitVec 32} {n before : ℕ} {base : ℤ} {data : Bytes} {datas datas' : List Bytes}

theorem toInt_numbered (h : before < 2 ^ 32) : (isn + BitVec.ofNat 32 before).toInt =
    if before < room isn then isn.toInt + before else isn.toInt + before - 2 ^ 32 := by
  have := isn.isLt
  simp only [room, BitVec.toInt_eq_toNat_cond, BitVec.toNat_add, BitVec.toNat_ofNat]
  split_ifs <;> omega

theorem early_append_late (n before : ℕ) (datas : List Bytes) : early n before datas ++ late n before datas = datas := by
  induction datas generalizing before with
  | nil => rfl
  | cons data datas ih =>
    rw [early, late]
    split_ifs
    · exact congrArg (data :: ·) (ih _)
    · rfl

theorem early_append : early n before (datas ++ datas') =
    if late n before datas = [] then
      early n before datas ++ early n (before + datas.flatten.length) datas'
    else early n before datas := by
  induction datas generalizing before with
  | nil => exact (if_pos rfl).symm
  | cons data datas ih =>
    rw [List.cons_append, early, early, late, List.flatten_cons, List.length_append, ← Nat.add_assoc]
    by_cases hroom : before < n
    · rw [if_pos hroom, if_pos hroom, if_pos hroom, ih]
      split_ifs <;> rfl
    · rw [if_neg hroom, if_neg hroom, if_neg hroom, if_neg (List.cons_ne_nil _ _)]

theorem late_append : late n before (datas ++ datas') =
    if late n before datas = [] then late n (before + datas.flatten.length) datas'
    else late n before datas ++ datas' := by
  induction datas generalizing before with
  | nil => exact (if_pos rfl).symm
  | cons data datas ih =>
    rw [List.cons_append, late, late, List.flatten_cons, List.length_append, ← Nat.add_assoc]
    by_cases hroom : before < n
    · rw [if_pos hroom, if_pos hroom, ih]
    · rw [if_neg hroom, if_neg hroom, if_neg (List.cons_ne_nil _ _)]
      rfl

private theorem late_eq_self (h : n ≤ before) : late n before datas = datas := by
  cases datas with
  | nil => rfl
  | cons data datas => exact if_neg (Nat.not_lt.mpr h)

private theorem early_eq_nil (h : n ≤ before) : early n before datas = [] := by
  cases datas with
  | nil => rfl
  | cons data datas => exact if_neg (Nat.not_lt.mpr h)

theorem map_placed : (placed base datas).map Prod.snd = datas := by
  induction datas generalizing base with
  | nil => rfl
  | cons data datas ih => exact congrArg (data :: ·) ih

theorem mem_placed {entry : ℤ × Bytes} (hfilled : ∀ data ∈ datas, data ≠ [])
    (h : entry ∈ placed base datas) : base ≤ entry.1 ∧ entry.1 < base + datas.flatten.length := by
  induction datas generalizing base with
  | nil => cases h
  | cons data datas ih =>
    have hlength := List.length_pos_of_ne_nil (hfilled data List.mem_cons_self)
    rw [List.flatten_cons, List.length_append]
    rcases List.mem_cons.mp h with rfl | h
    · exact ⟨Int.le_refl _, by omega⟩
    · have := ih (fun data hdata => hfilled data (List.mem_cons_of_mem _ hdata)) h
      omega

theorem pairwise_placed (hfilled : ∀ data ∈ datas, data ≠ []) :
    (placed base datas).Pairwise fun a b => a.1 < b.1 := by
  induction datas generalizing base with
  | nil => exact List.Pairwise.nil
  | cons data datas ih =>
    have hlength := List.length_pos_of_ne_nil (hfilled data List.mem_cons_self)
    have hfilled' : ∀ data ∈ datas, data ≠ [] := fun data hdata =>
      hfilled data (List.mem_cons_of_mem _ hdata)
    refine List.Pairwise.cons (fun entry h => ?_) (ih hfilled')
    have := mem_placed hfilled' h
    omega

theorem numbered_eq (hlength : before + datas.flatten.length ≤ 2 ^ 32)
    (hfilled : ∀ data ∈ datas, data ≠ []) : numbered isn before datas =
      placed (isn.toInt + before) (early (room isn) before datas) ++
        placed (isn.toInt + before + (early (room isn) before datas).flatten.length - 2 ^ 32)
          (late (room isn) before datas) := by
  induction datas generalizing before with
  | nil => rfl
  | cons data datas ih =>
    have hdata := List.length_pos_of_ne_nil (hfilled data List.mem_cons_self)
    rw [List.flatten_cons, List.length_append] at hlength
    have hnext : numbered isn (before + data.length) datas = _ := ih (by omega) fun data hdata =>
      hfilled data (List.mem_cons_of_mem _ hdata)
    have hkey : (isn + BitVec.ofNat 32 before).toInt = _ := toInt_numbered (by omega)
    rw [numbered, hnext, hkey, early, late]
    by_cases hroom : before < room isn
    · rw [if_pos hroom, if_pos hroom, if_pos hroom, placed, List.flatten_cons, List.length_append]
      push_cast
      rw [← Int.add_assoc, ← Int.add_assoc]
      rfl
    · have hroom' := Nat.not_lt.mp hroom
      rw [if_neg hroom, if_neg hroom, if_neg hroom, early_eq_nil (by omega), late_eq_self (by omega)]
      simp only [placed, List.flatten_nil, List.length_nil, List.nil_append]
      refine congrArg₂ List.cons (Prod.ext ?_ rfl) (congrArg (placed · datas) ?_)
      · omega
      · omega

/-- Entries with keys of their own are ordered in one way. -/
theorem mergeSort_eq {entries sorted : List (ℤ × Bytes)} (hperm : entries.Perm sorted)
    (hsorted : sorted.Pairwise fun a b => a.1 < b.1) :
    (entries.mergeSort fun a b => a.1 ≤ b.1) = sorted := by
  have hkeys : ∀ a ∈ sorted, ∀ b ∈ sorted, a.1 = b.1 → a = b := fun a ha b hb =>
    List.Pairwise.forall_of_forall_of_flip (R := fun a b => a.1 = b.1 → a = b) (fun _ _ _ => rfl)
      (hsorted.imp fun h heq => absurd heq (Int.ne_of_lt h))
      (hsorted.imp fun h heq => absurd heq.symm (Int.ne_of_lt h)) ha hb
  refine List.Perm.eq_of_pairwise (fun a b ha hb hab hba => ?_) ?_
    (hsorted.imp fun h => Int.le_of_lt h) ((List.mergeSort_perm _ _).trans hperm)
  · exact hkeys a (hperm.mem_iff.mp (List.mem_mergeSort.mp ha)) b hb (Int.le_antisymm hab hba)
  · have hpairwise : (entries.mergeSort fun a b => a.1 ≤ b.1).Pairwise
        fun a b => decide (a.1 ≤ b.1) = true :=
      List.pairwise_mergeSort (fun a b c => by simpa using Int.le_trans)
        (fun a b => by simpa using Int.le_total a.1 b.1) entries
    exact hpairwise.imp of_decide_eq_true

private theorem getOrderedPayload_turned {base' : ℤ} (hfilled : ∀ data ∈ datas, data ≠ [])
    (hfilled' : ∀ data ∈ datas', data ≠ []) (h : base' + datas'.flatten.length ≤ base) :
    SessionBuffer.getOrderedPayload (placed base datas ++ placed base' datas') =
      datas'.flatten ++ datas.flatten := by
  have hsorted : (placed base' datas' ++ placed base datas).Pairwise fun a b => a.1 < b.1 := by
    refine List.pairwise_append.mpr ⟨pairwise_placed hfilled', pairwise_placed hfilled, ?_⟩
    intro a ha b hb
    have := mem_placed hfilled' ha
    have := mem_placed hfilled hb
    omega
  rw [SessionBuffer.getOrderedPayload, mergeSort_eq List.perm_append_comm hsorted, List.flatMap_append,
    List.flatMap_def, List.flatMap_def, map_placed, map_placed]

theorem sum_early_late (n before : ℕ) (datas : List Bytes) :
    (early n before datas).flatten.length + (late n before datas).flatten.length =
      datas.flatten.length := by
  rw [← List.length_append, ← List.flatten_append, early_append_late n before]

theorem filled_early (hfilled : ∀ data ∈ datas, data ≠ []) :
    ∀ data ∈ early n before datas, data ≠ [] := by
  intro data h
  have hsplit : early n before datas ++ late n before datas = datas := early_append_late n before datas
  exact hfilled data (hsplit ▸ List.mem_append_left _ h)

theorem filled_late (hfilled : ∀ data ∈ datas, data ≠ []) :
    ∀ data ∈ late n before datas, data ≠ [] := by
  intro data h
  have hsplit : early n before datas ++ late n before datas = datas := early_append_late n before datas
  exact hfilled data (hsplit ▸ List.mem_append_right _ h)

/-- The segments past number 2 ^ 31 come before the others. -/
theorem getOrderedPayload_numbered (hlength : datas.flatten.length ≤ 2 ^ 32)
    (hfilled : ∀ data ∈ datas, data ≠ []) :
    SessionBuffer.getOrderedPayload (numbered isn 0 datas) =
      (late (room isn) 0 datas).flatten ++ (early (room isn) 0 datas).flatten := by
  have heq : numbered isn 0 datas = _ := numbered_eq (by omega) hfilled
  have hsum := sum_early_late (room isn) 0 datas
  rw [heq, getOrderedPayload_turned (filled_early hfilled) (filled_late hfilled)]
  omega

private theorem distinct_numbered (hlength : datas.flatten.length ≤ 2 ^ 32)
    (hfilled : ∀ data ∈ datas, data ≠ []) :
    (numbered isn 0 datas).Pairwise fun a b => a.1 ≠ b.1 := by
  have heq : numbered isn 0 datas = _ := numbered_eq (by omega) hfilled
  have hsum := sum_early_late (room isn) 0 datas
  rw [heq]
  refine List.pairwise_append.mpr ⟨?_, ?_, fun a ha b hb => ?_⟩
  · exact (pairwise_placed (filled_early hfilled)).imp Int.ne_of_lt
  · exact (pairwise_placed (filled_late hfilled)).imp Int.ne_of_lt
  · have := mem_placed (filled_early hfilled) ha
    have := mem_placed (filled_late hfilled) hb
    omega

private theorem numbered_append : numbered isn before (datas ++ datas') =
    numbered isn before datas ++ numbered isn (before + datas.flatten.length) datas' := by
  induction datas generalizing before with
  | nil => rfl
  | cons data datas ih =>
    rw [List.cons_append, numbered, numbered, ih, List.flatten_cons, List.length_append, Nat.add_assoc]
    rfl

/-- The next segment finds no other one under its number. -/
theorem addSegment_numbered (hlength : (datas ++ [data]).flatten.length ≤ 2 ^ 32)
    (hfilled : ∀ data' ∈ datas ++ [data], data' ≠ []) :
    SessionBuffer.addSegment (numbered isn 0 datas)
      (isn + BitVec.ofNat 32 datas.flatten.length).toInt data = numbered isn 0 (datas ++ [data]) := by
  have hdistinct : (numbered isn 0 (datas ++ [data])).Pairwise _ := distinct_numbered hlength hfilled
  rw [numbered_append, Nat.zero_add] at hdistinct ⊢
  rw [SessionBuffer.addSegment, Dict.put_of_forall_ne]
  · rfl
  · exact fun entry h => (List.pairwise_append.mp hdistinct).2.2 entry h _ List.mem_cons_self

end

/-- The segments of one stream, as they are sent. -/
def packets (key : TcpKey) (isn : BitVec 32) (before : ℕ) : List Bytes → List TcpSegment
  | [] => []
  | data :: datas =>
      ⟨key, isn + BitVec.ofNat 32 before, data⟩ :: packets key isn (before + data.length) datas

/-- The segments as they are put together, with so many bytes before number 2 ^ 31. -/
def turned (n : ℕ) (datas : List Bytes) : Bytes :=
  (late n 0 datas).flatten ++ (early n 0 datas).flatten

/-- What the reassembler finds at each next segment. -/
@[grind =] def answers (n : ℕ) (past : List Bytes) : List Bytes → List (Option Bytes)
  | [] => []
  | data :: datas => extractEnvelope (turned n (past ++ [data])) :: answers n (past ++ [data]) datas

/-- The packets of one stream in a run. -/
def ownPackets (key : TcpKey) : List Event → List TcpSegment :=
  List.filterMap fun
    | .packet (some p) => if p.key = key then some p else none
    | _ => none

theorem ownPackets_cons {key : TcpKey} {p : TcpSegment} {events : List Event} (h : p.key = key) :
    ownPackets key (.packet (some p) :: events) = p :: ownPackets key events := by
  simp only [ownPackets, List.filterMap_cons, if_pos h]

theorem ownPackets_alone {key : TcpKey} {isn : BitVec 32} {before : ℕ} {datas : List Bytes} :
    ownPackets key ((packets key isn before datas).map fun p => .packet (some p)) =
      packets key isn before datas := by
  induction datas generalizing before with
  | nil => rfl
  | cons data datas ih =>
    rw [packets, List.map_cons, ownPackets_cons (by rfl), ih]

/-- What a call says of the envelope it parsed; `none` is said of a packet that is not looked at. -/
def Outcome.tells : Outcome → Option (Option Bytes)
  | .ignored => none
  | .notCompleted => some none
  | .parsed body _ => some (some body)

def ownOutcomes (key : TcpKey) (results : List (Option TcpSegment × Outcome)) : List Outcome :=
  results.filterMap fun result =>
    if result.1.map TcpSegment.key = some key then some result.2 else none

private theorem getD_timeout {sessions : StreamReassembler} {key key' : TcpKey} (h : key' ≠ key) :
    (sessions.timeout key').get key = sessions.get key := by
  rw [StreamReassembler.timeout]
  split
  · rfl
  · exact Dict.get_put_of_ne h

theorem get_addSegment {sessions : StreamReassembler} {key key' : TcpKey} {seq : ℤ} {data : Bytes}
    (h : key' ≠ key) : (sessions.addSegment key' seq data).get key = sessions.get key := by
  rw [StreamReassembler.addSegment]
  split_ifs
  · rfl
  · exact Dict.get_put_of_ne h

private theorem get_parse {reading : Reading} {sessions : StreamReassembler} {key : TcpKey}
    {rawPacket : Option TcpSegment} (h : rawPacket.map TcpSegment.key ≠ some key) :
    (parse reading sessions rawPacket).2.get key = sessions.get key := by
  cases rawPacket with
  | none => rfl
  | some p =>
    have hkey : p.key ≠ key := fun hkey => h (congrArg some hkey)
    simp only [parse]
    split_ifs
    · rfl
    · split
      · exact get_addSegment hkey
      · exact get_addSegment hkey

/-- One call on a stream that holds these segments. -/
theorem parse_numbered {reading : Reading} {sessions : StreamReassembler} {key : TcpKey}
    {isn : BitVec 32} {past : List Bytes} {data : Bytes}
    (hpast : (sessions.get key).getD [] = numbered isn 0 past)
    (hlength : (past ++ [data]).flatten.length ≤ 2 ^ 32)
    (hfilled : ∀ data' ∈ past ++ [data], data' ≠ []) :
    (parse reading sessions (some ⟨key, isn + BitVec.ofNat 32 past.flatten.length, data⟩)).1.tells =
      some (extractEnvelope (turned (room isn) (past ++ [data]))) ∧
    ((parse reading sessions (some ⟨key, isn + BitVec.ofNat 32 past.flatten.length, data⟩)).2.get
      key).getD [] = numbered isn 0 (past ++ [data]) := by
  have hdata : ¬data.length = 0 := fun h => hfilled data (by simp) (List.eq_nil_of_length_eq_zero h)
  have hget : (sessions.addSegment key (isn + BitVec.ofNat 32 past.flatten.length).toInt data).get key =
      some (numbered isn 0 (past ++ [data])) := by
    rw [StreamReassembler.addSegment, if_neg hdata, Dict.get_put_self, hpast,
      addSegment_numbered hlength hfilled]
  have hreassemble : (sessions.addSegment key (isn + BitVec.ofNat 32 past.flatten.length).toInt
      data).tryReassembleXml key = extractEnvelope (turned (room isn) (past ++ [data])) := by
    rw [StreamReassembler.tryReassembleXml, hget]
    exact congrArg extractEnvelope (getOrderedPayload_numbered hlength hfilled)
  simp only [parse, if_neg hdata, hreassemble]
  split
  · next h => exact ⟨congrArg some h.symm, by rw [hget]; rfl⟩
  · next h => exact ⟨congrArg some h.symm, by rw [hget]; rfl⟩

/-- Other streams and their timeouts change nothing of this one. -/
theorem ownOutcomes_run {reading : Reading} {key : TcpKey} {isn : BitVec 32} {events : List Event}
    {sessions : StreamReassembler} {past datas : List Bytes} (hown : ownPackets key events =
      packets key isn past.flatten.length datas) (htimeout : Event.timeout key ∉ events)
    (hpast : (sessions.get key).getD [] = numbered isn 0 past)
    (hlength : (past ++ datas).flatten.length ≤ 2 ^ 32) (hfilled : ∀ data ∈ past ++ datas, data ≠ []) :
    (ownOutcomes key (run reading sessions events)).map Outcome.tells =
      (answers (room isn) past datas).map some := by
  induction events generalizing sessions past datas with
  | nil =>
    cases datas with
    | nil => rfl
    | cons data datas => cases hown
  | cons e events ih =>
    have htimeout' : Event.timeout key ∉ events := fun h => htimeout (List.mem_cons_of_mem _ h)
    cases e with
    | timeout key' =>
      have hkey : key' ≠ key := fun h => htimeout (h ▸ List.mem_cons_self)
      exact ih hown htimeout' (by rwa [getD_timeout hkey]) hlength hfilled
    | packet rawPacket =>
      by_cases hkey : rawPacket.map TcpSegment.key = some key
      · obtain ⟨p, rfl⟩ : ∃ p, rawPacket = some p := by
          cases rawPacket with
          | none => cases hkey
          | some p => exact ⟨p, rfl⟩
        have hkey : p.key = key := Option.some.inj hkey
        rw [ownPackets_cons hkey] at hown
        cases datas with
        | nil => cases hown
        | cons data datas =>
          obtain ⟨rfl, hrest⟩ := List.cons.inj hown
          rw [List.append_cons] at hlength hfilled
          have hfirst : (past ++ [data]).flatten.length ≤ 2 ^ 32 := by
            rw [List.flatten_append, List.length_append] at hlength
            omega
          obtain ⟨htells, hnext⟩ := parse_numbered hpast hfirst
            fun data' h => hfilled data' (List.mem_append_left _ h)
          rw [run, ownOutcomes, List.filterMap_cons, if_pos (by rfl), List.map_cons, answers, List.map_cons]
          refine congrArg₂ List.cons htells (ih ?_ htimeout' hnext hlength hfilled)
          rw [hrest, List.flatten_append, List.length_append]
          simp
      · have hskip : ownPackets key (.packet rawPacket :: events) = ownPackets key events := by
          cases rawPacket with
          | none => rfl
          | some p =>
            simp only [ownPackets, List.filterMap_cons, if_neg fun h => hkey (congrArg some h)]
        rw [run, ownOutcomes, List.filterMap_cons, if_neg hkey]
        exact ih (hskip ▸ hown) htimeout' (by rwa [get_parse hkey]) hlength hfilled

end Kanat.OnVif
