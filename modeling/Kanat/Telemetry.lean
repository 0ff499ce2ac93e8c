import Kanat.Rounding
import Mathlib.Algebra.Order.Field.Rat
import Mathlib.Data.Rat.Floor
import Mathlib.Tactic.Linarith

/-! # Telemetry pushed to the windows (TelemetryService.cs, TelemetryBroadcaster.cs)

A call of the service takes its steps one at a time, among those of the other calls and of the broadcaster. Times are
milliseconds. -/
namespace Kanat.Telemetry
open Rounding (truncate)

inductive Counter where
  | captured | parsed | dropped | flushed | failed | backpressure
  | motionCaptured | safetyCaptured | onvifCaptured
  | motionCaptureFail | safetyCaptureFail | onvifCaptureFail
  | motionParseSuccess | motionParseFail | safetyParseSuccess | safetyParseFail | onvifParseSuccess | onvifParseFail
  | motionFlushSuccess | motionFlushFail | safetyFlushSuccess | safetyFlushFail | onvifFlushSuccess | onvifFlushFail
  deriving DecidableEq

def Counter.all : List Counter :=
  [.captured, .parsed, .dropped, .flushed, .failed, .backpressure,
    .motionCaptured, .safetyCaptured, .onvifCaptured,
    .motionCaptureFail, .safetyCaptureFail, .onvifCaptureFail,
    .motionParseSuccess, .motionParseFail, .safetyParseSuccess, .safetyParseFail, .onvifParseSuccess, .onvifParseFail,
    .motionFlushSuccess, .motionFlushFail, .safetyFlushSuccess, .safetyFlushFail, .onvifFlushSuccess, .onvifFlushFail]

inductive Channel where
  | motionRaw | safetyRaw | onvifRaw | motionParsed | safetyParsed | onvifParsed
  deriving DecidableEq

def Channel.all : List Channel := [.motionRaw, .safetyRaw, .onvifRaw, .motionParsed, .safetyParsed, .onvifParsed]

def Channel.name : Channel → String
  | .motionRaw => "MotionRaw"
  | .safetyRaw => "SafetyRaw"
  | .onvifRaw => "OnvifRaw"
  | .motionParsed => "MotionParsed"
  | .safetyParsed => "SafetyParsed"
  | .onvifParsed => "OnvifParsed"

structure ChannelStatsDto where
  capacity : ℤ
  currentSize : ℤ
  utilizationPercent : ℚ
  workers : ℤ
  avgLatencyMs : ℚ

@[ext] structure TelemetryDto where
  counter : Counter → ℤ
  avgLatency : ℚ
  channel : Channel → Option ChannelStatsDto

structure TelemetryService where
  counter : Counter → ℤ := fun _ => 0
  avgLatency : ℚ := 0
  channelStats : String → Option ChannelStatsDto := fun _ => none
  totalLatency : ℤ := 0
  latencyCount : ℤ := 0
  hasChanges : Bool := false

namespace TelemetryService

/-- What a snapshot would show, were nothing to change under it. -/
def current (s : TelemetryService) : TelemetryDto := ⟨s.counter, s.avgLatency, fun c => s.channelStats c.name⟩

end TelemetryService

/-- What a snapshot reads at once. -/
inductive Field where
  | counter (c : Counter)
  | avgLatency
  | channel (c : Channel)
  deriving DecidableEq

/-- In the order `SnapshotAsync` reads them. -/
def Field.all : List Field :=
  (Counter.all.take 6).map .counter ++ .avgLatency :: (Counter.all.drop 6).map .counter ++ Channel.all.map .channel

def TelemetryDto.read (dto : TelemetryDto) (s : TelemetryService) : Field → TelemetryDto
  | .counter c => { dto with counter := Function.update dto.counter c (s.counter c) }
  | .avgLatency => { dto with avgLatency := s.avgLatency }
  | .channel c => { dto with channel := Function.update dto.channel c (s.channelStats c.name) }

def TelemetryDto.empty : TelemetryDto := ⟨fun _ => 0, 0, fun _ => none⟩

/-- A step of a call. `readTotal` and `readCount` keep what they read for `setAverage`. -/
inductive Op where
  | add (c : Counter) (count : ℤ)
  | exchange (c : Counter) (value : ℤ)
  | addLatency (micros : ℤ)
  | countLatency
  | readTotal
  | readCount
  | setAverage
  | exchangeTotal (value : ℤ)
  | exchangeCount (value : ℤ)
  | writeAverage (value : ℚ)
  | updateChannel (name : String) (stats : ChannelStatsDto)
  | clearChannels
  | changed
  | notifyChange

inductive Call where
  /-- `IncrementCaptured` and the like. -/
  | increment (c : Counter) (count : ℤ)
  | updateLatency (latency : ℚ)
  | updateChannelStats (name : String) (stats : ChannelStatsDto)
  | reset
  | setTestData

def Call.ops : Call → List Op
  | .increment c count => [.add c count, .changed, .notifyChange]
  | .updateLatency latency =>
    [.addLatency (truncate (latency * 1000)), .countLatency, .readTotal, .readCount, .setAverage, .changed,
      .notifyChange]
  | .updateChannelStats name stats => [.updateChannel name stats, .changed, .notifyChange]
  | .reset =>
    Counter.all.map (.exchange · 0) ++
      [.exchangeTotal 0, .exchangeCount 0, .writeAverage 0, .clearChannels, .changed, .notifyChange]
  | .setTestData =>
    [.exchange .captured 1000, .exchange .parsed 950, .exchange .dropped 25, .exchange .flushed 925,
      .exchange .failed 5, .exchange .backpressure 10, .exchange .motionCaptured 400, .exchange .safetyCaptured 350,
      .exchange .onvifCaptured 250, .exchangeTotal 5000, .exchangeCount 100, .writeAverage 5, .changed, .notifyChange]

/-- A call under way: the steps left, and what it has read. -/
structure Thread where
  left : List Op
  total : ℤ := 0
  count : ℤ := 0

/-- What a `long` holds. -/
def wrap (x : ℤ) : ℤ := x.bmod (2 ^ 64)

/-- What a step leaves of the service. -/
def TelemetryService.perform (s : TelemetryService) (t : Thread) : Op → TelemetryService
  | .add c count => { s with counter := Function.update s.counter c (wrap (s.counter c + count)) }
  | .exchange c value => { s with counter := Function.update s.counter c value }
  | .addLatency micros => { s with totalLatency := wrap (s.totalLatency + micros) }
  | .countLatency => { s with latencyCount := wrap (s.latencyCount + 1) }
  | .setAverage => if 0 < t.count then { s with avgLatency := t.total / t.count / 1000 } else s
  | .exchangeTotal value => { s with totalLatency := value }
  | .exchangeCount value => { s with latencyCount := value }
  | .writeAverage value => { s with avgLatency := value }
  | .updateChannel name stats => { s with channelStats := Function.update s.channelStats name (some stats) }
  | .clearChannels => { s with channelStats := fun _ => none }
  | .changed => { s with hasChanges := true }
  | .readTotal | .readCount | .notifyChange => s

/-- What a step leaves of its call. -/
def Thread.perform (t : Thread) (s : TelemetryService) (left : List Op) : Op → Thread
  | .readTotal => { t with left, total := s.totalLatency }
  | .readCount => { t with left, count := s.latencyCount }
  | _ => { t with left }

structure TelemetryBroadcasterOptions where
  enabled : Bool := true
  maxPushRateHz : ℚ := 10
  minIntervalMs : ℚ := 100
  rate_pos : 0 < maxPushRateHz
  interval_nonneg : 0 ≤ minIntervalMs

private theorem ten_pos : (0 : ℚ) < 10 := by norm_num

private theorem hundred_nonneg : (0 : ℚ) ≤ 100 := by norm_num

def TelemetryBroadcasterOptions.default : TelemetryBroadcasterOptions :=
  { rate_pos := ten_pos, interval_nonneg := hundred_nonneg }

/-- `TimeSpan.FromMilliseconds(1000.0 / MaxPushRateHz)`: a `TimeSpan` is of whole ticks of 100 ns. -/
def TelemetryBroadcasterOptions.minInterval (o : TelemetryBroadcasterOptions) : ℚ :=
  ⌊1000 / o.maxPushRateHz * 10000⌋ / 10000

def CAPACITY : ℕ := 100

/-- Where the broadcaster is; `started` is the moment a push reads as its own. -/
inductive Stage where
  | waiting (until_ : ℚ)
  | draining
  | pushing (ignoreChangeCheck : Bool)
  | checking (ignoreChangeCheck : Bool) (started : ℚ)
  | reading (started : ℚ) (left : List Field) (dto : TelemetryDto)
  | sending (started : ℚ) (dto : TelemetryDto)
  | marking (started : ℚ)
  | stopped

def Stage.isStopped : Stage → Bool
  | .stopped => true
  | _ => false

/-- `pushed` holds the snapshots that reached the windows, each with when its push started. Of the broadcaster's
lateness: `notifiedAt` is when the oldest notification came, and `since` when it was due to leave its last wait. -/
structure World where
  now : ℚ
  service : TelemetryService
  threads : List Thread
  notifications : ℕ
  notifiedAt : ℚ
  stage : Stage
  since : ℚ
  lastPushTime : Option ℚ
  hasInitialPush : Bool
  pushed : List (ℚ × TelemetryDto)

inductive Act where
  | tick (d : ℚ)
  | call (c : Call)
  | goes (i : ℕ)
  | wakes
  | timesOut
  | drains
  | starts
  | checks
  | reads
  | sends (answered : Bool)
  | marks
  | stop

namespace World
variable (o : TelemetryBroadcasterOptions) (late : ℚ)

def notify (w : World) : World :=
  if o.enabled then
    { w with
      notifications := min CAPACITY (w.notifications + 1)
      notifiedAt := if w.notifications = 0 then w.now else w.notifiedAt }
  else w

/-- The next step of call `i`. -/
def go (w : World) (i : ℕ) (t : Thread) (left : List Op) (op : Op) : World :=
  let w' := { w with
    service := w.service.perform t op
    threads := w.threads.set i (t.perform w.service left op) }
  match op with
  | .notifyChange => w'.notify o
  | _ => w'

/-- When the broadcaster has something to do, or has had since. -/
def due (w : World) : ℚ :=
  match w.stage with
  | .waiting until_ =>
    if w.notifications = 0 then until_ else min until_ (max (until_ - o.minIntervalMs) w.notifiedAt)
  | _ => w.since

def wait (w : World) : World := { w with stage := .waiting (w.now + o.minIntervalMs) }

/-- The broadcaster is at most `late` behind what it is due to do, a push's calls counted in. -/
def step (w : World) : Act → Option World
  | .tick d =>
    if 0 ≤ d ∧ (w.stage.isStopped ∨ w.now + d ≤ w.due o + late) then some { w with now := w.now + d } else none
  | .call c => some { w with threads := w.threads ++ [⟨c.ops, 0, 0⟩] }
  | .goes i =>
    match w.threads[i]? with
    | some ⟨op :: left, total, count⟩ => some (w.go o i ⟨op :: left, total, count⟩ left op)
    | _ => none
  | .wakes =>
    match w.stage with
    | .waiting _ => if 0 < w.notifications then some { w with stage := .draining, since := w.due o } else none
    | _ => none
  | .timesOut =>
    match w.stage with
    | .waiting until_ => if until_ ≤ w.now then some { w with stage := .pushing true, since := w.due o } else none
    | _ => none
  | .drains =>
    match w.stage with
    | .draining =>
      if 0 < w.notifications then some { w with notifications := w.notifications - 1 }
      else some { w with stage := .pushing false }
    | _ => none
  | .starts =>
    match w.stage with
    | .pushing ignoreChangeCheck =>
      if w.lastPushTime.any fun last => w.now - last < o.minInterval then some (w.wait o)
      else some { w with stage := .checking ignoreChangeCheck w.now }
    | _ => none
  | .checks =>
    match w.stage with
    | .checking ignoreChangeCheck started =>
      if w.hasInitialPush && !ignoreChangeCheck && !w.service.hasChanges then some (w.wait o)
      else some { w with stage := .reading started Field.all .empty, hasInitialPush := true }
    | _ => none
  | .reads =>
    match w.stage with
    | .reading started (f :: left) dto => some { w with stage := .reading started left (dto.read w.service f) }
    | .reading started [] dto => some { w with stage := .sending started dto }
    | _ => none
  | .sends answered =>
    match w.stage with
    | .sending started dto =>
      if answered then some { w with stage := .marking started, pushed := w.pushed ++ [(started, dto)] }
      else some (w.wait o)
    | _ => none
  | .marks =>
    match w.stage with
    | .marking started =>
      some ({ w with service := { w.service with hasChanges := false }, lastPushTime := some started }.wait o)
    | _ => none
  | .stop => some { w with stage := .stopped }

def run (w : World) : List Act → Option World
  | [] => some w
  | a :: acts => (w.step o late a).bind fun w' => w'.run acts

def start (now : ℚ) : World where
  now
  service := {}
  threads := []
  notifications := 0
  notifiedAt := now
  stage := if o.enabled then .pushing false else .stopped
  since := now
  lastPushTime := none
  hasInitialPush := false
  pushed := []

end World
end Kanat.Telemetry
