import NatsExplorer.History.SubjectBuf
import NatsExplorer.Message
import Mathlib.Logic.Function.Basic

/-! The in-memory history (`internal/history/history.go`, `clear.go`): shards of
a byte budget, each with one arrival-ordered FIFO over all its subjects. Entries,
rings and connection histories are heap objects; an entry points back at its
ring and its connection, and stays in the FIFO after it is dead. -/
namespace NatsExplorer.History
open Go

abbrev Ref := Nat

def defaultMaxBytes : Nat := 256 * 2 ^ 20
def defaultMaxPerSubject : Nat := 10000

structure Entry where
  record : Option Record
  size : Nat
  dead : Bool
  buf : Ref
  conn : Ref

/-- Everything one shard holds for a connection, with counters. -/
structure ConnHist where
  subjects : Map Str Ref
  count : Int
  bytes : Int

structure Shard where
  maxBytes : Nat
  maxPerSubject : Nat
  bytes : Int
  count : Int
  fifo : List (Option Ref)
  fifoHead : Nat
  conns : Map Str Ref
  entries : Ref → Entry
  bufs : Ref → SubjectBuf Ref
  hists : Ref → ConnHist
  /-- The next free address. -/
  next : Ref

def outOfStep : String := "history: global FIFO out of step with subject FIFO"
def runtimeError : String := "runtime error"

namespace Shard

def newShard (maxBytes maxPerSubject : Nat) : Shard where
  maxBytes := maxBytes
  maxPerSubject := maxPerSubject
  bytes := 0
  count := 0
  fifo := []
  fifoHead := 0
  conns := ∅
  entries _ := { record := none, size := 0, dead := false, buf := 0, conn := 0 }
  bufs _ := .empty
  hists _ := { subjects := ∅, count := 0, bytes := 0 }
  next := 0

/-- Releases a live entry's accounting and payload. -/
def kill (sh : Shard) (e : Ref) : Shard :=
  let entry := sh.entries e
  if entry.dead then sh
  else
    let hist := sh.hists entry.conn
    { sh with
      entries := Function.update sh.entries e { entry with dead := true, record := none }
      bytes := sh.bytes - entry.size
      count := sh.count - 1
      hists := Function.update sh.hists entry.conn
        { hist with bytes := hist.bytes - entry.size, count := hist.count - 1 } }

def setBuf (sh : Shard) (b : Ref) (buf : SubjectBuf Ref) : Shard :=
  { sh with bufs := Function.update sh.bufs b buf }

/-- The history of a connection, made if there is none. -/
def connOf (sh : Shard) (connID : Str) : Shard × Ref :=
  match sh.conns.lookup connID with
  | some h => (sh, h)
  | none => ({ sh with
      hists := Function.update sh.hists sh.next { subjects := ∅, count := 0, bytes := 0 }
      conns := sh.conns.insert connID sh.next
      next := sh.next + 1 }, sh.next)

/-- The ring of a subject, made if there is none. -/
def bufOf (sh : Shard) (h : Ref) (subject : Str) : Shard × Ref :=
  let hist := sh.hists h
  match hist.subjects.lookup subject with
  | some b => (sh, b)
  | none => ({ sh with
      bufs := Function.update sh.bufs sh.next .empty
      hists := Function.update sh.hists h
        { hist with subjects := hist.subjects.insert subject sh.next }
      next := sh.next + 1 }, sh.next)

/-- A new entry at the end of its ring and of the FIFO, with its accounting. -/
def enter (sh : Shard) (h b : Ref) (rec : Record) : Shard :=
  let e := sh.next
  let entry : Entry := { record := some rec, size := rec.bytes, dead := false, buf := b, conn := h }
  let hist := sh.hists h
  { sh.setBuf b ((sh.bufs b).push e) with
    entries := Function.update sh.entries e entry
    fifo := sh.fifo ++ [some e]
    bytes := sh.bytes + entry.size
    count := sh.count + 1
    hists := Function.update sh.hists h
      { hist with bytes := hist.bytes + entry.size, count := hist.count + 1 }
    next := e + 1 }

/-- The cap of one subject. -/
def cap (sh : Shard) (b : Ref) : Except String Shard :=
  if sh.maxPerSubject < (sh.bufs b).n then
    match (sh.bufs b).popHead with
    | none => .error runtimeError
    | some (e, buf) => .ok ((sh.setBuf b buf).kill e)
  else .ok sh

/-- The byte budget: the FIFO gives up its oldest until the shard is below it. -/
def evict : Nat → Shard → Except String Shard
  | 0, sh => .ok sh
  | fuel + 1, sh =>
    if sh.bytes > sh.maxBytes ∧ sh.fifoHead < sh.fifo.length then
      match sh.fifo[sh.fifoHead]?.join with
      | none => .error runtimeError
      | some old =>
        let sh := { sh with fifo := sh.fifo.set sh.fifoHead none, fifoHead := sh.fifoHead + 1 }
        if (sh.entries old).dead then evict fuel sh
        else
          match (sh.bufs (sh.entries old).buf).popHead with
          | none => .error outOfStep
          | some (first, buf) =>
            if first ≠ old then .error outOfStep
            else evict fuel ((sh.setBuf (sh.entries old).buf buf).kill old)
    else .ok sh

def compact (sh : Shard) : Shard :=
  if 4096 < sh.fifoHead ∧ sh.fifo.length / 2 < sh.fifoHead then
    { sh with fifo := sh.fifo.drop sh.fifoHead, fifoHead := 0 }
  else sh

def append (sh : Shard) (connID : Str) (rec : Record) : Except String Shard :=
  let (sh, h) := sh.connOf connID
  let (sh, b) := sh.bufOf h rec.subject
  match (sh.enter h b rec).cap b with
  | .error panic => .error panic
  | .ok sh =>
    match sh.evict (sh.fifo.length - sh.fifoHead) with
    | .error panic => .error panic
    | .ok sh => .ok sh.compact

def killAll (sh : Shard) (b : Ref) : Shard := (sh.bufs b).toList.foldl kill sh

/-- Kills a subject's ring and takes it out of its connection. -/
def cut (h : Ref) (sh : Shard) (ring : (_ : Str) × Ref) : Shard :=
  let sh := sh.killAll ring.snd
  let hist := sh.hists h
  { sh with
    hists := Function.update sh.hists h { hist with subjects := hist.subjects.erase ring.fst } }

/-- The loop the drops share: the rings of the matching subjects are killed and
taken out, and a connection left without subjects goes with them. -/
def dropWhere (rt : Runtime) (matching : Str → Bool) (sh : Shard) (connID : Str) :
    Shard × List Str :=
  match sh.conns.lookup connID with
  | none => (sh, [])
  | some h =>
    let going := (rt.range (sh.hists h).subjects.entries).filter fun p => matching p.fst
    let sh := going.foldl (cut h) sh
    let sh :=
      if (sh.hists h).subjects.keys.length = 0 then { sh with conns := sh.conns.erase connID }
      else sh
    (sh, going.map (·.fst))

def drop (rt : Runtime) (sh : Shard) (connID : Str) : Shard :=
  match sh.conns.lookup connID with
  | none => sh
  | some h =>
    let sh := (rt.range (sh.hists h).subjects.values).foldl killAll sh
    { sh with conns := sh.conns.erase connID }

def clear (sh : Shard) : Shard :=
  { sh with conns := ∅, fifo := [], fifoHead := 0, bytes := 0, count := 0 }

end Shard

/-- `hash` stands for `message.SubjectHash`, which is seeded anew in every process. -/
structure MemStore where
  shards : List Shard
  hash : Str → Nat

namespace MemStore

def newMemStoreShards (hash : Str → Nat) (maxBytes maxPerSubject shards : Int) : MemStore :=
  let maxBytes := if maxBytes ≤ 0 then defaultMaxBytes else maxBytes.toNat
  let maxPerSubject := if maxPerSubject ≤ 0 then defaultMaxPerSubject else maxPerSubject.toNat
  let shards := if shards ≤ 0 then 1 else shards.toNat
  { shards := List.replicate shards (.newShard (maxBytes / shards) maxPerSubject), hash := hash }

/-- The index of the shard a subject is kept in. -/
def shardOf (s : MemStore) (subject : Str) (hash : Nat) : Nat :=
  if s.shards.length = 1 then 0
  else (if hash = 0 then s.hash subject else hash) % s.shards.length

def append (s : MemStore) (connID : Str) (rec : Record) : Except String MemStore :=
  match s.shards[s.shardOf rec.subject rec.hash]? with
  | none => .error runtimeError
  | some sh =>
    match sh.append connID rec with
    | .error panic => .error panic
    | .ok sh => .ok { s with shards := s.shards.set (s.shardOf rec.subject rec.hash) sh }

def dropSubjects (rt : Runtime) (s : MemStore) (connID : Str) (subjects : List Str) : MemStore :=
  if subjects.length = 0 then s
  else { s with shards := s.shards.map fun sh =>
    (sh.dropWhere rt (fun subject => subject ∈ subjects) connID).1 }

/-- Returns the subjects it emptied. -/
def dropMatching (rt : Runtime) (s : MemStore) (connID subject : Str) (branch : Bool) :
    MemStore × List Str :=
  if subject = [] then (s, [])
  else
    let dropped := s.shards.map fun sh => sh.dropWhere rt (fun subj =>
      subj = subject || (branch && strings.hasPrefix subj (subject ++ ['.']))) connID
    ({ s with shards := dropped.map (·.1) }, (dropped.map (·.2)).flatten)

def drop (rt : Runtime) (s : MemStore) (connID : Str) : MemStore :=
  { s with shards := s.shards.map fun sh => sh.drop rt connID }

def clear (s : MemStore) : MemStore := { s with shards := s.shards.map Shard.clear }

end MemStore
end NatsExplorer.History
