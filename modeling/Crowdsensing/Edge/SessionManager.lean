import Crowdsensing.Externals

/-!
# The session table

`edge/src/session-manager.cpp`: the table of the requests the edge is collecting
replies for.  Each function of the source holds the mutex from beginning to end,
so it is one function of the table here.

* `add_get`, `erase_get`, `appendPayload_get` — what each operation does to a
  session: one key changes, the others stay.
-/

namespace Crowdsensing

open Text

/-- `Session`, without the timer, which `Timers` follows. -/
structure Session where
  sessionId : UInt64
  dataPtr : Data
  buffer : Str := []
  deriving DecidableEq, Repr

/-- `SessionManager`: `m_hash_table`. -/
structure SessionManager where
  hashTable : UInt64 → Option Session := fun _ => none

namespace SessionManager

/-- `SessionManager::get`: null for a key that is not there. -/
def get (m : SessionManager) (key : UInt64) : Option Session := m.hashTable key

/-- Write one entry of the table. -/
def set (m : SessionManager) (key : UInt64) (session : Option Session) : SessionManager where
  hashTable := fun k => if k = key then session else m.hashTable k

/-- `SessionManager::add`: a key that is there keeps its session. -/
def add (m : SessionManager) (key : UInt64) (data_packet : Data) : SessionManager :=
  match m.get key with
  | none => m.set key (some { sessionId := key, dataPtr := data_packet })
  | some _ => m

/-- `SessionManager::erase`. -/
def erase (m : SessionManager) (key : UInt64) : SessionManager := m.set key none

/-- `SessionManager::append_payload`: whether the session was found, and the table
with the payload and a line end behind its buffer. -/
def appendPayload (m : SessionManager) (key : UInt64) (value : Str) : Bool × SessionManager :=
  match m.get key with
  | none => (false, m)
  | some session =>
    (true, m.set key (some { session with buffer := session.buffer ++ value ++ [ch '\n'] }))

/-- `SessionManager::buffer`: `none` where `at` throws `std::out_of_range`. -/
def buffer (m : SessionManager) (key : UInt64) : Option Str := (m.hashTable key).map Session.buffer

/-- `SessionManager::data_packet`: null for a key that is not there. -/
def dataPacket (m : SessionManager) (key : UInt64) : Option Data :=
  match m.get key with
  | none => none
  | some session => some session.dataPtr

section

variable (m : SessionManager) (key k : UInt64)

@[simp] theorem erase_get : (m.erase key).get k = if k = key then none else m.get k := rfl

/-- **A new key opens a session with an empty buffer; every other key stays.** -/
theorem add_get (data_packet : Data) :
    (m.add key data_packet).get k =
      if k = key then some ((m.get key).getD { sessionId := key, dataPtr := data_packet })
      else m.get k := by
  unfold add
  cases h : m.get key with
  | none => rfl
  | some session =>
    by_cases hk : k = key
    · rw [if_pos hk, hk, h, Option.getD_some]
    · rw [if_neg hk]

/-- **A payload goes to the session it is meant for and to no other.** -/
theorem appendPayload_get (value : Str) :
    (m.appendPayload key value).2.get k =
      if k = key then (m.get key).map fun session =>
        { session with buffer := session.buffer ++ value ++ [ch '\n'] }
      else m.get k := by
  unfold appendPayload
  cases h : m.get key with
  | none =>
    by_cases hk : k = key
    · rw [if_pos hk, hk, h, Option.map_none]
    · rw [if_neg hk]
  | some session => rfl

@[simp] theorem buffer_eq : m.buffer key = (m.get key).map Session.buffer := rfl

@[simp] theorem dataPacket_eq : m.dataPacket key = (m.get key).map Session.dataPtr := by
  unfold dataPacket
  cases m.get key <;> rfl

end

end SessionManager

end Crowdsensing
