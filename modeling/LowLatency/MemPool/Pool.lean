import LowLatency.Library.Words
import Mathlib.Data.List.Basic

namespace LowLatency.MemPool

open Library.Words

variable {α : Type*}

/-- One slot. `object` is the `T` that lives in `storage_`, if one does;
`isFree` is the flag the pool keeps about it. -/
structure ObjectBlock (α : Type*) where
  object : Option α
  isFree : Bool

inductive Lifetime
  | started (slot : ℕ)
  | constructed (slot : ℕ)
  | abandoned (slot : ℕ)
  | destroyed (slot : ℕ)
  deriving DecidableEq

structure Pool (α : Type*) where
  store : List (ObjectBlock α)
  nextFreeIndex : ℕ
  numFree : ℕ
  lifetimes : List Lifetime

/-- Where the slots lie in memory: `storage_` is the first member of its block. -/
structure Layout where
  base : ℕ
  stride : ℕ
  base_pos : 0 < base
  stride_pos : 0 < stride

def Layout.address (lay : Layout) (slot : ℕ) : ℕ := lay.base + slot * lay.stride

def Pool.new (cap : Capacity) : Pool α :=
  ⟨List.replicate cap.size ⟨none, true⟩, 0, cap.size, []⟩

/-- How the `do`-`while` loop of `updateNextFreeIndex()` ends, with the value of
`next_free_index_` at that moment. -/
inductive Search
  | found (index : ℕ)
  | noFreeBlock (index : ℕ)
  | outOfRange (index : ℕ)
  | running (index : ℕ)
  deriving DecidableEq

def advance (size index : ℕ) : ℕ :=
  if sizeAdd index 1 = size then 0 else sizeAdd index 1

def searchLoop (store : List (ObjectBlock α)) (start : ℕ) : ℕ → ℕ → Search
  | 0, index => .running index
  | fuel + 1, index =>
    let index := advance store.length index
    match store[index]? with
    | none => .outOfRange index
    | some block =>
      if block.isFree then .found index
      else if index ≠ start then searchLoop store start fuel index
      else .noFreeBlock index

def updateNextFreeIndex (p : Pool α) : Search :=
  searchLoop p.store p.nextFreeIndex p.store.length p.nextFreeIndex

inductive Result
  | nullptr
  | object (address : ℕ)
  | threw
  | released (accepted : Bool)
  | assertFailed
  deriving DecidableEq

/-- How a constructor ends. It is aborted where it reaches a failing `assert`. -/
inductive Construction (α : Type*)
  | completed (object : α)
  | threw
  | aborted

def Construction.ofOption : Option α → Construction α
  | some object => .completed object
  | none => .threw

namespace Pool

def record (e : Lifetime) (p : Pool α) : Pool α := { p with lifetimes := p.lifetimes ++ [e] }

def commit (lay : Layout) (slot : ℕ) (v : α) (p : Pool α) : Result × Pool α :=
  let p := { p.record (.constructed slot) with
    store := p.store.set slot ⟨some v, false⟩, numFree := sizeSub p.numFree 1 }
  if 0 < p.numFree then
    match updateNextFreeIndex p with
    | .found index => (.object (lay.address slot), { p with nextFreeIndex := index })
    | .noFreeBlock index | .outOfRange index | .running index =>
      (.assertFailed, { p with nextFreeIndex := index })
  else (.object (lay.address slot), p)

/-- `allocate()`. The constructor is user code and gets the pool as it is in
mid-call. -/
def allocate (lay : Layout) (construct : Pool α → Construction α × Pool α) (p : Pool α) :
    Result × Pool α :=
  if p.numFree = 0 then (.nullptr, p)
  else
    match p.store[p.nextFreeIndex]? with
    | none => (.assertFailed, p)
    | some block =>
      if block.isFree then
        let slot := p.nextFreeIndex
        match construct (p.record (.started slot)) with
        | (.aborted, p) => (.assertFailed, p)
        | (.threw, p) => (.threw, p.record (.abandoned slot))
        | (.completed v, p) => p.commit lay slot v
      else (.assertFailed, p)

def findSlot (lay : Layout) (elem : ℕ) (p : Pool α) : Option ℕ :=
  (List.range p.store.length).find? fun i ↦ lay.address i = elem

def release (slot : ℕ) (p : Pool α) : Pool α :=
  { p with
    store := p.store.set slot ⟨none, true⟩
    numFree := sizeAdd p.numFree 1
    nextFreeIndex := slot }

/-- `deallocate()`. The destructor is user code that runs before the flag is set. -/
def deallocate (lay : Layout) (destruct : Pool α → Pool α) (elem : ℕ) (p : Pool α) :
    Result × Pool α :=
  if elem = 0 then (.released false, p)
  else
    match p.findSlot lay elem with
    | none => (.released false, p)
    | some slot =>
      match p.store[slot]? with
      | none => (.assertFailed, p)
      | some block =>
        if block.isFree then (.released false, p)
        else (.released true, (destruct (p.record (.destroyed slot))).release slot)

/-- One iteration of the loop of `~MemPool()`. The flag stays as it is. -/
def destroyBlock (destruct : ℕ → Pool α → Pool α) (p : Pool α) (slot : ℕ) : Pool α :=
  match p.store[slot]? with
  | none => p
  | some block =>
    if block.isFree then p
    else
      let p := destruct slot (p.record (.destroyed slot))
      { p with store := p.store.modify slot fun block ↦ { block with object := none } }

def destructor (destruct : ℕ → Pool α → Pool α) (p : Pool α) : Pool α :=
  (List.range p.store.length).foldl (destroyBlock destruct) p

end Pool

inductive Op (α : Type*)
  | allocate (outcome : Option α)
  | deallocate (elem : ℕ)

/-- One call on a pool whose constructors and destructors do not re-enter it. -/
def Pool.call (lay : Layout) (p : Pool α) : Op α → Result × Pool α
  | .allocate outcome => p.allocate lay fun p ↦ (.ofOption outcome, p)
  | .deallocate elem => p.deallocate lay id elem

def CallStep (lay : Layout) (p : Pool α) (l : Op α × Result) (p' : Pool α) : Prop :=
  p.call lay l.1 = (l.2, p')

end LowLatency.MemPool
