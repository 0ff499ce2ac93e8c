import Mathlib.Data.Int.Init
import Kanat.FilterLanguage
import Kanat.RangeModelValidator

/-! # What a capture's filter lets through

`BpfFilterBuilder.cs`. The filter has one group of all the endpoints' hosts and one of all their ports. -/
namespace Kanat.RangeService.BpfFilterBuilder
open FilterLanguage

structure Packet where
  /-- The protocols it is of, by the names a filter gives them. -/
  protocols : List String
  src : String
  dst : String
  srcPort : ℕ
  dstPort : ℕ

namespace Packet
variable (p : Packet)

def ofProtocol (name : String) : Bool := p.protocols.contains name

/-- `host` -/
def toOrFrom (host : String) : Bool := p.src = host || p.dst = host

/-- `port` -/
def usesPort (port : ℤ) : Bool := (p.srcPort : ℤ) = port || (p.dstPort : ℤ) = port

def answers : Answers where
  protocol text := p.ofProtocol (String.ofList text)
  host text := p.toOrFrom (String.ofList text)
  port text := p.usesPort (Nat.ofDigitChars 10 text 0)

/-- Of the transport a protocol's name stands for. -/
def ofTransport (protocol : String) : Bool :=
  match protocol.toLower with
  | "tcp" => p.ofProtocol "tcp"
  | "udp" => p.ofProtocol "udp"
  | "http" => p.ofProtocol "tcp"
  | "any" => true
  | _ => isNullOrWhiteSpace (some protocol) || p.ofProtocol protocol

end Packet

/-- The IP an endpoint gives. -/
def givenIp (endpoint : EndpointSpecification) : Option String :=
  endpoint.ip.filter fun ip => !isNullOrWhiteSpace (some ip)

/-- The port an endpoint gives. -/
def givenPort (endpoint : EndpointSpecification) : Option ℤ := endpoint.port.filter fun port => 0 < port

/-- Whether a packet matches an endpoint in every field it gives. -/
def isMatch (endpoint : EndpointSpecification) (p : Packet) : Bool :=
  (givenIp endpoint).all p.toOrFrom && (givenPort endpoint).all p.usesPort

/-- Whether a packet passes the filter made of the endpoints. -/
def captured (protocol : String) (endpoints : List EndpointSpecification) (p : Packet) : Bool :=
  passes p.answers (build protocol endpoints).toList

section
variable {p : Packet}

private theorem reads_hostClause {ip : String} (h : IsWord ip.toList) :
    Reads p.answers (lex s!"host {ip}".toList) (p.toOrFrom ip) := by
  have htext : s!"host {ip}".toList = ['h', 'o', 's', 't'] ++ ' ' :: ip.toList := by
    simp [String.toList_append, toString]
  have hlex : lex s!"host {ip}".toList = [.host, .word ip.toList] := by
    rw [htext, lex_blank, h]
    rfl
  rw [hlex]
  simpa [Packet.answers] using reads_host (m := p.answers) ip.toList

private theorem isWord_repr (n : ℕ) : IsWord n.repr.toList := by
  rw [Nat.toList_repr]
  exact isWord_of_digits (fun c hc => Nat.isDigit_of_mem_toDigits (by decide) (by decide) hc) Nat.toDigits_ne_nil

private theorem reads_portClause {port : ℤ} (h : 0 < port) :
    Reads p.answers (lex s!"port {port}".toList) (p.usesPort port) := by
  obtain ⟨n, rfl⟩ := Int.eq_ofNat_of_zero_le (Int.le_of_lt h)
  have hrepr : toString (n : ℤ) = n.repr := rfl
  have htext : s!"port {(n : ℤ)}".toList = ['p', 'o', 'r', 't'] ++ ' ' :: n.repr.toList := by
    rw [hrepr]
    simp [String.toList_append, toString]
  have hlex : lex s!"port {(n : ℤ)}".toList = [.port, .word n.repr.toList] := by
    rw [htext, lex_blank, isWord_repr n]
    rfl
  rw [hlex]
  simpa [Packet.answers, Nat.toList_repr, Nat.ofDigitChars_ten_toDigits] using reads_port (m := p.answers) n.repr.toList

/-- The endpoints' `host` or `port` clauses, one of which is enough; there are none where no endpoint gives one. -/
theorem reads_anyOf {clauses : List String} {values : List Bool}
    (h : List.Forall₂ (fun c v => Reads p.answers (lex c.toList) v) clauses values) :
    List.Forall₂ (fun c v => Reads p.answers (lex c.toList) v) (anyOf clauses)
      (if values = [] then [] else [values.any id]) := by
  cases h with
  | nil => exact .nil
  | @cons clause value clauses values hclause hclauses =>
    rw [anyOf, if_neg (List.cons_ne_nil _ _), if_neg (List.cons_ne_nil _ _)]
    refine .cons ?_ .nil
    have hor := reads_or hclause (List.forall₂_map_left_iff.mpr hclauses : List.Forall₂
      (fun f v => Reads p.answers (lex f) v) (clauses.map String.toList) values)
    have htext : ("(" ++ " or ".intercalate (clause :: clauses) ++ ")").toList =
        '(' :: (List.intercalate Connective.or.separator (clause.toList :: clauses.map String.toList) ++ [')']) := by
      simp only [String.toList_append, String.toList_intercalate]
      rfl
    rw [htext]
    exact hor

/-- The protocol's clause; for `http` it names a port itself. -/
theorem reads_expression {protocol : String}
    (hname : isNullOrWhiteSpace (some protocol) = true ∨ IsWord protocol.toList) :
    ∃ values, List.Forall₂ (fun c v => Reads p.answers (lex c.toList) v)
        (if isNullOrWhiteSpace (some (expression protocol)) then [] else [expression protocol]) values ∧
      values.all id = (p.ofTransport protocol && (protocol.toLower != "http" || p.usesPort 80)) := by
  unfold expression Packet.ofTransport
  split
  · exact ⟨[p.ofProtocol "tcp"], .cons (reads_protocol _) .nil, by simp_all⟩
  · exact ⟨[p.ofProtocol "udp"], .cons (reads_protocol _) .nil, by simp_all⟩
  · exact ⟨[p.ofProtocol "tcp" && p.usesPort 80], .cons (reads_protocol_port _ _) .nil, by simp_all⟩
  · exact ⟨[], .nil, by simp_all⟩
  · cases hblank : isNullOrWhiteSpace (some protocol) with
    | true => exact ⟨[], .nil, by simp_all⟩
    | false =>
      have hword : IsWord protocol.toList := by simpa [hblank] using hname
      have hreads : Reads p.answers (lex protocol.toList) (p.ofProtocol protocol) := by
        rw [hword]
        simpa [Packet.answers] using reads_protocol (m := p.answers) protocol.toList
      exact ⟨[p.ofProtocol protocol], .cons hreads .nil, by simp_all⟩

variable {protocol : String} {endpoints : List EndpointSpecification}

theorem any_if_nil (values : List Bool) : (if values = [] then [] else [values.any id]).all id =
    (values.isEmpty || values.any id) := by
  cases values <;> simp

/-- What passes: the protocol's packets to or from one of the hosts, if any is given, that use one of the ports, if
any is given. -/
theorem captured_eq (hname : isNullOrWhiteSpace (some protocol) = true ∨ IsWord protocol.toList)
    (hips : ∀ ip ∈ endpoints.filterMap givenIp, IsWord ip.toList) :
    captured protocol endpoints p = ((p.ofTransport protocol && (protocol.toLower != "http" || p.usesPort 80)) &&
      ((endpoints.filterMap givenIp).isEmpty || (endpoints.filterMap givenIp).any p.toOrFrom) &&
      ((endpoints.filterMap givenPort).isEmpty || (endpoints.filterMap givenPort).any p.usesPort)) := by
  set ips := endpoints.filterMap givenIp
  set ports := endpoints.filterMap givenPort
  have hpos : ∀ port ∈ ports, 0 < port := by
    intro port hport
    obtain ⟨endpoint, -, hgiven⟩ := List.mem_filterMap.mp hport
    exact of_decide_eq_true (Option.filter_eq_some_iff.mp hgiven).2
  have hhosts : List.Forall₂ (fun c v => Reads p.answers (lex c.toList) v) (ips.map fun ip => s!"host {ip}")
      (ips.map p.toOrFrom) :=
    List.forall₂_map_left_iff.mpr (List.forall₂_map_right_iff.mpr
      (List.forall₂_same.mpr fun ip hip => reads_hostClause (hips ip hip)))
  have hports : List.Forall₂ (fun c v => Reads p.answers (lex c.toList) v) (ports.map fun port => s!"port {port}")
      (ports.map p.usesPort) :=
    List.forall₂_map_left_iff.mpr (List.forall₂_map_right_iff.mpr
      (List.forall₂_same.mpr fun port hport => reads_portClause (hpos port hport)))
  obtain ⟨values, hproto, hvalues⟩ := reads_expression (p := p) hname
  have hall := List.rel_append (List.rel_append hproto (reads_anyOf hhosts)) (reads_anyOf hports)
  have hpasses := passes_and (List.forall₂_map_left_iff.mpr hall : List.Forall₂
    (fun f v => Reads p.answers (lex f) v) (List.map String.toList _) _)
  rw [List.all_append, List.all_append, hvalues, any_if_nil, any_if_nil] at hpasses
  simp only [List.isEmpty_map, List.any_map, Function.id_comp] at hpasses
  rw [← hpasses, captured, build]
  simp only [List.filter_filterMap, String.toList_intercalate]
  rfl

/-- A group lets an endpoint's packets through, unless it lacks what another endpoint gives. -/
theorem group_passes {α : Type} {given : EndpointSpecification → Option α} {holds : α → Bool}
    {endpoint : EndpointSpecification} (hmem : endpoint ∈ endpoints) (hmatch : (given endpoint).all holds = true)
    (hgiven : (given endpoint).isSome = true ∨ ∀ e ∈ endpoints, given e = none) :
    ((endpoints.filterMap given).isEmpty || (endpoints.filterMap given).any holds) = true := by
  rw [Bool.or_eq_true]
  rcases hgiven with hsome | hnone
  · obtain ⟨value, hvalue⟩ := Option.isSome_iff_exists.mp hsome
    rw [hvalue] at hmatch
    exact .inr (List.any_eq_true.mpr ⟨value, List.mem_filterMap.mpr ⟨endpoint, hmem, hvalue⟩, hmatch⟩)
  · exact .inl (List.isEmpty_iff.mpr (List.filterMap_eq_nil_iff.mpr hnone))

theorem captured_of_isMatch (hname : isNullOrWhiteSpace (some protocol) = true ∨ IsWord protocol.toList)
    (hips : ∀ ip ∈ endpoints.filterMap givenIp, IsWord ip.toList) (htransport : p.ofTransport protocol = true)
    (hhttp : protocol.toLower = "http" → p.usesPort 80 = true) {endpoint : EndpointSpecification}
    (hmem : endpoint ∈ endpoints) (hmatch : isMatch endpoint p = true)
    (hip : (givenIp endpoint).isSome = true ∨ ∀ e ∈ endpoints, givenIp e = none)
    (hport : (givenPort endpoint).isSome = true ∨ ∀ e ∈ endpoints, givenPort e = none) :
    captured protocol endpoints p = true := by
  obtain ⟨hhost, hused⟩ := Bool.and_eq_true_iff.mp hmatch
  have hclause : (protocol.toLower != "http" || p.usesPort 80) = true := by
    by_cases h : protocol.toLower = "http"
    · rw [hhttp h, Bool.or_true]
    · rw [bne_iff_ne.mpr h, Bool.true_or]
  rw [captured_eq hname hips, htransport, hclause, group_passes hmem hhost hip, group_passes hmem hused hport]
  rfl

theorem toList_toLower (s : String) : s.toLower.toList = s.toList.map Char.toLower :=
  String.toList_map

theorem toLower_tcp : "tcp".toLower = "tcp" := by
  rw [← String.toList_inj, toList_toLower]
  rfl

private theorem toLower_http : "http".toLower = "http" := by
  rw [← String.toList_inj, toList_toLower]
  rfl

theorem captured_of_both : captured "tcp" [⟨some "10.0.0.1", some 502⟩, ⟨some "10.0.0.2", some 80⟩]
    ⟨["tcp"], "10.0.0.2", "10.0.0.9", 80, 40000⟩ = true :=
  captured_of_isMatch (.inr (by decide)) (by decide) (by rw [Packet.ofTransport, toLower_tcp]; decide)
    (by rw [toLower_tcp]; decide) (show (⟨some "10.0.0.2", some 80⟩ : EndpointSpecification) ∈ _ by decide)
    (by decide) (.inl (by decide)) (.inl (by decide))

/-- An endpoint that gives an IP alone loses what does not use another's port, and `http` every port but 80. -/
theorem endpoint_lost :
    isMatch ⟨some "10.0.0.1", none⟩ ⟨["tcp"], "10.0.0.1", "10.0.0.9", 80, 40000⟩ = true ∧
      captured "tcp" [⟨some "10.0.0.1", none⟩, ⟨none, some 502⟩] ⟨["tcp"], "10.0.0.1", "10.0.0.9", 80, 40000⟩ = false ∧
    isMatch ⟨some "10.0.0.1", some 8080⟩ ⟨["tcp"], "10.0.0.1", "10.0.0.9", 8080, 40000⟩ = true ∧
      captured "http" [⟨some "10.0.0.1", some 8080⟩] ⟨["tcp"], "10.0.0.1", "10.0.0.9", 8080, 40000⟩ = false := by
  refine ⟨by decide, ?_, by decide, ?_⟩
  · rw [captured_eq (.inr (by decide)) (by decide), Packet.ofTransport, toLower_tcp]
    decide
  · rw [captured_eq (.inr (by decide)) (by decide), Packet.ofTransport, toLower_http]
    decide

end

end Kanat.RangeService.BpfFilterBuilder
