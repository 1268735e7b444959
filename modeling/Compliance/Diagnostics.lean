/-! # Diagnostics

What is found in compliance data is reported, not thrown. A finding is a `Message` of one of three
levels; `Diagnostics` collects messages by level and only ever appends.

* `Diagnostics.addAll_append`: recording two lists of messages one after the other is recording
  their concatenation, so a run's diagnostics are a function of its messages alone.
* `Logged`: a computation that records messages and may stop; what it recorded before it stopped is
  kept.
-/

namespace Compliance

inductive Level where
  | error
  | warning
  | note
deriving DecidableEq, Repr

def Level.name : Level → String
  | .error => "error"
  | .warning => "warning"
  | .note => "note"

structure Message where
  level : Level
  text : String
deriving DecidableEq, Repr

namespace Message

/-- A finding that makes the data unusable. -/
def error (text : String) : Message := ⟨.error, text⟩

/-- A finding that may be meant. -/
def warning (text : String) : Message := ⟨.warning, text⟩

/-- A finding that is no fault. -/
def note (text : String) : Message := ⟨.note, text⟩

/-- The texts of the messages of one level, in order. -/
def textsAt (level : Level) (ms : List Message) : List String :=
  (ms.filter fun m => m.level = level).map (·.text)

end Message

/-- The findings of a run by level, in the order in which they came in; none is ever dropped. -/
structure Diagnostics where
  errors : List String := []
  warnings : List String := []
  notes : List String := []
deriving DecidableEq, Repr

namespace Diagnostics

def add (d : Diagnostics) (m : Message) : Diagnostics :=
  match m.level with
  | .error => { d with errors := d.errors ++ [m.text] }
  | .warning => { d with warnings := d.warnings ++ [m.text] }
  | .note => { d with notes := d.notes ++ [m.text] }

def addAll (d : Diagnostics) (ms : List Message) : Diagnostics := ms.foldl add d

def ofMessages (ms : List Message) : Diagnostics := addAll {} ms

def atLevel (d : Diagnostics) : Level → List String
  | .error => d.errors
  | .warning => d.warnings
  | .note => d.notes

/-- The levels in the order of a report, each with its messages. -/
def byLevel (d : Diagnostics) : List (Level × List String) :=
  [(.error, d.errors), (.warning, d.warnings), (.note, d.notes)]

theorem addAll_append (d : Diagnostics) (ms ns : List Message) :
    d.addAll (ms ++ ns) = (d.addAll ms).addAll ns := List.foldl_append

/-- Each level of recorded messages is what was there, then the new texts of that level. -/
theorem atLevel_addAll (d : Diagnostics) (ms : List Message) (level : Level) :
    (d.addAll ms).atLevel level = d.atLevel level ++ Message.textsAt level ms := by
  induction ms generalizing d with
  | nil => simp [addAll, Message.textsAt]
  | cons m ms ih =>
    have h : (d.add m).atLevel level =
        d.atLevel level ++ (if m.level = level then [m.text] else []) := by
      obtain ⟨l, t⟩ := m
      cases l <;> cases level <;> simp [add, atLevel]
    have ih := ih (d.add m)
    simp only [addAll, List.foldl_cons] at ih ⊢
    rw [ih, h]
    by_cases hm : m.level = level <;> simp [Message.textsAt, hm]

end Diagnostics

/-- A computation that records messages and ends with a result or a fault. -/
structure Logged (ε α : Type) where
  messages : List Message
  outcome : Except ε α

namespace Logged

variable {ε α β : Type}

/-- A result with nothing to record. -/
def done (a : α) : Logged ε α := ⟨[], .ok a⟩

def log (ms : List Message) : Logged ε Unit := ⟨ms, .ok ()⟩

def stop (e : ε) : Logged ε α := ⟨[], .error e⟩

/-- A result or a fault with nothing to record. -/
def ofExcept (x : Except ε α) : Logged ε α := ⟨[], x⟩

/-- Goes on with the result; a fault ends the computation, and its messages stay. -/
def andThen (x : Logged ε α) (f : α → Logged ε β) : Logged ε β :=
  match x.outcome with
  | .error e => ⟨x.messages, .error e⟩
  | .ok a => ⟨x.messages ++ (f a).messages, (f a).outcome⟩

/-- Runs the action for each item in order until one stops. -/
def each {γ : Type} (items : List γ) (action : γ → Logged ε Unit) : Logged ε Unit :=
  match items with
  | [] => done ()
  | x :: r => (action x).andThen fun _ => each r action

/-- Carries a value through the items in order until a step stops. -/
def fold {γ : Type} (items : List γ) (start : α) (step : α → γ → Logged ε α) : Logged ε α :=
  match items with
  | [] => done start
  | x :: r => (step start x).andThen fun a => fold r a step

end Logged

end Compliance
