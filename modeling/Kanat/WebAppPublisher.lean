import Mathlib.Data.List.Basic
import Kanat.Bullets

/-! # Posting Confirmed Bullet Holes to the WebApp

`WebAppPublisher`: the thread of the Run publishes values and leaves the `with`, the worker's thread posts
them. What each POST comes to is the network's and the backend's. -/
namespace Kanat.WebApp
open Bullets

variable {Value Key Seen : Type}

def retryDelaysS : List ℕ := [2, 4, 8, 16, 32, 60, 60, 60]

def attempts : ℕ := retryDelaysS.length + 1

/-- What `urlopen` comes to: a response, an error answer whose body reads to its end or not, or a
refused, reset or timed out connection. -/
inductive Outcome where
  | response (status : ℕ)
  | httpError (code : ℕ) (bodyReads : Bool)
  | exception
  deriving DecidableEq

/-- `_attempt`: true once the POST is settled. `error.read()` stands in an `except` clause, which no other
clause of its `try` guards. -/
def attempt : Outcome → Except Unit Bool
  | .response _ => .ok true
  | .httpError code true => .ok (code < 500)
  | .httpError _ false => .error ()
  | .exception => .ok false

inductive Ending where
  | posted | refused | gaveUp | notPosted
  deriving DecidableEq

def settledAs : Outcome → Ending
  | .response _ => .posted
  | _ => .refused

/-- Where the worker's thread is: `iter(self._queue.get, None)`, then in `_post` before the look at `_stop`,
past it, in `urlopen`, and in `_stop.wait`. It has died of an exception with the value it was posting. -/
inductive Worker (Value : Type) where
  | getting
  | checking (value : Value) (attempt : ℕ)
  | starting (value : Value) (attempt : ℕ)
  | posting (value : Value) (attempt : ℕ)
  | waiting (value : Value) (attempt : ℕ)
  | ended
  | died (value : Value) (attempt : ℕ)

/-- A POST begun, and whether the worker had been told to stop. -/
structure Post (Key Seen : Type) where
  data : BulletCreate Key Seen
  told : Bool

/-- How the worker was done with a value, after how many attempts. -/
structure Ended (Value : Type) where
  value : Value
  ending : Ending
  made : ℕ

structure Publisher (Value Key Seen : Type) where
  queue : List (Option Value)
  stop : Bool
  worker : Worker Value
  /-- All the Run has published, the sentinel apart. -/
  published : List Value
  left : Bool
  posts : List (Post Key Seen)
  ends : List (Ended Value)

inductive Act (Value : Type) where
  | publish (value : Value)
  | leave
  | timeOut
  | get
  | check
  | start
  | outcome (o : Outcome)
  | wake

/-- `_payload`; `seen` is the rest of the wire format. -/
def payload (key : Value → Key) (seen : Value → Seen) (value : Value) : BulletCreate Key Seen where
  source := .model
  idempotencyKey := some (key value)
  seen := seen value

namespace Publisher

def entered : Publisher Value Key Seen where
  queue := []
  stop := false
  worker := .getting
  published := []
  left := false
  posts := []
  ends := []

variable (key : Value → Key) (seen : Value → Seen) (p : Publisher Value Key Seen)

/-- The worker returns from `_post`. -/
def finish (value : Value) (ending : Ending) (made : ℕ) : Publisher Value Key Seen :=
  { p with worker := .getting, ends := p.ends ++ [⟨value, ending, made⟩] }

def alive : Bool :=
  match p.worker with
  | .ended | .died .. => false
  | _ => true

/-- An act that cannot be taken is none. -/
def step : Act Value → Option (Publisher Value Key Seen)
  | .publish value =>
    if p.left then none
    else some { p with queue := p.queue ++ [some value], published := p.published ++ [value] }
  | .leave => if p.left then none else some { p with queue := p.queue ++ [none], left := true }
  | .timeOut => if p.left ∧ p.alive then some { p with stop := true } else none
  | .get =>
    match p.worker, p.queue with
    | .getting, some value :: queue => some { p with queue, worker := .checking value 1 }
    | .getting, none :: queue => some { p with queue, worker := .ended }
    | _, _ => none
  | .check =>
    match p.worker with
    | .checking value n =>
      some (if p.stop then p.finish value .notPosted (n - 1) else { p with worker := .starting value n })
    | _ => none
  | .start =>
    match p.worker with
    | .starting value n =>
      some { p with worker := .posting value n, posts := p.posts ++ [⟨payload key seen value, p.stop⟩] }
    | _ => none
  | .outcome o =>
    match p.worker with
    | .posting value n =>
      match attempt o with
      | .error _ => some { p with worker := .died value n }
      | .ok true => some (p.finish value (settledAs o) n)
      | .ok false =>
        some (if n < attempts then { p with worker := .waiting value n } else p.finish value .gaveUp n)
    | _ => none
  | .wake =>
    match p.worker with
    | .waiting value n => some { p with worker := .checking value (n + 1) }
    | _ => none

def run : Publisher Value Key Seen → List (Act Value) → Option (Publisher Value Key Seen)
  | p, [] => some p
  | p, a :: acts => (p.step key seen a).bind fun p' => p'.run acts

end Publisher
end Kanat.WebApp
