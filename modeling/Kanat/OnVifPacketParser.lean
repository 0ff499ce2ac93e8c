import Kanat.DelimitedMatch
import Kanat.InsertionOrderDict
import Mathlib.Data.Int.Notation

/-! # The ONVIF packet parser and its stream reassembler

A packet is taken as the TCP segment in it, if there is one. Times of arrival and ids of entities are
left out. -/
namespace Kanat.OnVif
open DelimitedMatch InsertionOrderDict

abbrev Bytes := List UInt8

structure TcpKey where
  srcIP : String
  srcPort : ℕ
  dstIP : String
  dstPort : ℕ
deriving DecidableEq

structure TcpSegment where
  key : TcpKey
  sequenceNumber : BitVec 32
  payloadData : Bytes

/-- Segments by sequence number, taken as a signed number. -/
abbrev SessionBuffer := Dict ℤ Bytes

namespace SessionBuffer

def addSegment (session : SessionBuffer) (seq : ℤ) (data : Bytes) : SessionBuffer :=
  Dict.put session seq data

def getOrderedPayload (session : SessionBuffer) : Bytes :=
  (session.mergeSort fun a b => a.1 ≤ b.1).flatMap Prod.snd

end SessionBuffer

abbrev StreamReassembler := Dict TcpKey SessionBuffer

def bytes (text : String) : Bytes :=
  text.toList.map fun c => c.toNat.toUInt8

def soapOpening : Bytes := bytes "<SOAP-ENV:Envelope"
def soapClosing : Bytes := bytes "</SOAP-ENV:Envelope>"
def sOpening : Bytes := bytes "<s:Envelope"
def sClosing : Bytes := bytes "</s:Envelope>"

/-- The tags are ASCII, so they stand in the bytes where they stand in the decoded text. -/
def extractEnvelope (text : Bytes) : Option Bytes :=
  match firstMatch soapOpening soapClosing text with
  | some found => some found
  | none => firstMatch sOpening sClosing text

namespace StreamReassembler

def addSegment (sessions : StreamReassembler) (key : TcpKey) (seq : ℤ) (data : Bytes) :
    StreamReassembler :=
  if data.length = 0 then sessions
  else sessions.put key (((sessions.get key).getD []).addSegment seq data)

def tryReassembleXml (sessions : StreamReassembler) (key : TcpKey) : Option Bytes :=
  match sessions.get key with
  | none => none
  | some session => extractEnvelope session.getOrderedPayload

/-- The timeout watcher of a session forgets its segments. -/
def timeout (sessions : StreamReassembler) (key : TcpKey) : StreamReassembler :=
  match sessions.get key with
  | none => sessions
  | some _ => sessions.put key []

end StreamReassembler

/-- What the parser reads of a document: the value of its first `ProfileToken`, the `x` of its first
`Zoom`, the `name` of its first `Power` and the value of its first `Measurement`. -/
structure Document where
  profileToken : Option String
  zoom : Option (Option String)
  power : Option (Option String)
  measurement : Option String

/-- What the runtime reads of text. -/
structure Reading where
  document : Bytes → Option Document
  tryParse : String → Option Float

structure OnVIFPacketEntity where
  isCmd : Bool
  description : String
  zoom : Option Float
  measurement : Option Float

def ONVIF_REPORT_TCP_PORT : ℕ := 8080
def ONVIF_XML_DAY : String := "day"
def ONVIF_XML_NIGHT : String := "night_combined"
def ONVIF_XML_LRF : String := "laser_range_finder"
def ONVIF_FOV_REQ : String := "FOV_REQ"
def ONVIF_FOV_STS : String := "FOV_STS"
def ONVIF_LRF_REQ : String := "LRF_REQ"
def ONVIF_LRF_STS : String := "LRF_STS"

def ignoreCase (text : String) : List Char :=
  text.toList.map Char.toUpper

def dayIRTokens : List String := [ONVIF_XML_DAY, ONVIF_XML_NIGHT]

section
variable (reading : Reading)

def tryExtractZoomX (xmlBody : Document) : Option Float :=
  match xmlBody.zoom with
  | some (some x) => if x = "" then none else reading.tryParse x
  | _ => none

def tryExtractGetPower (xmlBody : Document) : Option String :=
  xmlBody.power.map fun name => name.getD ""

def tryExtractMeasurement (xmlBody : Document) : Option Float :=
  match xmlBody.measurement with
  | none => none
  | some text =>
      if ignoreCase "Error" <:+: ignoreCase text then some (-1000.0) else reading.tryParse text

/-- What a body says, `none` when it says nothing the parser knows. -/
def entityOf (xmlBody : Document) (isCmd : Bool) : Option OnVIFPacketEntity :=
  match xmlBody.profileToken with
  | some token =>
      if ignoreCase token ∈ dayIRTokens.map ignoreCase then
        some ⟨isCmd, ONVIF_FOV_REQ, none, none⟩
      else none
  | none =>
      match tryExtractZoomX reading xmlBody with
      | some zoom => some ⟨isCmd, ONVIF_FOV_STS, some zoom, none⟩
      | none =>
          match tryExtractGetPower xmlBody with
          | some power =>
              if power = ONVIF_XML_LRF then some ⟨isCmd, ONVIF_LRF_REQ, none, none⟩ else none
          | none =>
              match tryExtractMeasurement reading xmlBody with
              | some measurement => some ⟨isCmd, ONVIF_LRF_STS, none, some measurement⟩
              | none => none

/-- How a call of the parser ends. Of a call that parses, the body it parsed is kept too. -/
inductive Outcome where
  | ignored
  | notCompleted
  | parsed (body : Bytes) (entity : Option OnVIFPacketEntity)

def parse (sessions : StreamReassembler) (rawPacket : Option TcpSegment) :
    Outcome × StreamReassembler :=
  match rawPacket with
  | none => (.ignored, sessions)
  | some tcpSection =>
      let tcpSeq := tcpSection.sequenceNumber.toInt
      let data := tcpSection.payloadData
      if data.length = 0 then (.ignored, sessions)
      else
        let sessions := sessions.addSegment tcpSection.key tcpSeq data
        match sessions.tryReassembleXml tcpSection.key with
        | none => (.notCompleted, sessions)
        | some body =>
            let isCmd := tcpSection.key.srcPort ≠ ONVIF_REPORT_TCP_PORT
            (.parsed body ((reading.document body).bind fun xmlBody =>
              entityOf reading xmlBody isCmd), sessions)

/-- A packet is parsed, or a session's timeout is reached. -/
inductive Event where
  | packet (rawPacket : Option TcpSegment)
  | timeout (key : TcpKey)

/-- The parsed packets of a run, each with its outcome. -/
def run (sessions : StreamReassembler) : List Event → List (Option TcpSegment × Outcome)
  | [] => []
  | .packet rawPacket :: events =>
      (rawPacket, (parse reading sessions rawPacket).1) ::
        run (parse reading sessions rawPacket).2 events
  | .timeout key :: events => run (sessions.timeout key) events

end

end Kanat.OnVif
