import GuestExec.Memory.Access
import GuestExec.Native.Branch

/-!
# Step breakpoints

A single step places a breakpoint on every address that the current instruction
may go to, runs, and puts the instructions back. Cores that step towards the
same address share its breakpoint: the site table keeps the instruction that was
there first and counts its holders, and the last one to leave restores it. At
most 64 sites exist at a time.
-/

namespace GuestExec.Native

/-- An address whose instruction is replaced by a breakpoint. -/
structure PatchedSite where
  host : HostAddr
  original : UInt32
  /-- Protection of the page while no one writes to it. -/
  perms : Perms
  holders : Nat
deriving DecidableEq, Repr

/-- All sites of the process. -/
structure SiteTable where
  sites : List PatchedSite := []
deriving DecidableEq, Repr, Inhabited

namespace SiteTable

def capacity : Nat := 64

def contains (t : SiteTable) (host : HostAddr) : Bool := t.sites.any (·.host == host)

/-- One more holder for the site at `host`. -/
def share (t : SiteTable) (host : HostAddr) : SiteTable :=
  ⟨t.sites.map fun s => if s.host = host then { s with holders := s.holders + 1 } else s⟩

/-- Takes a holder from the site at `host`; after the last one the site is gone, and returned. -/
def release (t : SiteTable) (host : HostAddr) : Option PatchedSite × SiteTable :=
  match t.sites.find? (·.host == host) with
  | none => (none, t)
  | some site =>
    if site.holders = 1 then (some site, ⟨t.sites.filter (·.host != host)⟩)
    else
      (none,
        ⟨t.sites.map fun s => if s.host = host then { s with holders := s.holders - 1 } else s⟩)

end SiteTable

/-- The word at a host address, whatever guards its page; zero where there is no memory. -/
def codeWord (m : MemoryMap) (host : HostAddr) : UInt32 :=
  match m.findHost host with
  | none => 0
  | some r => UInt32.ofNat (ofLeBytes (r.backing.bytes.read (host.toNat - r.backing.base.toNat) 4))

/-- Writes the word at a host address and leaves its page with the protection `perms`; nothing if
the host has no such page. -/
def writeCode (m : MemoryMap) (host : HostAddr) (word : UInt32) (perms : Perms) :
    Option MemoryMap :=
  match m.findHost host with
  | none => none
  | some r =>
    let b := r.backing
    let offset := host.toNat - b.base.toNat
    let page := offset / pageSize
    match b.hostProtect page (page + 1) perms with
    | .error _ => none
    | .ok b =>
      some (m.setRegion { r with backing :=
        { b with bytes := b.bytes.write offset (toLeBytes 4 word.toNat) } })

/-- A held breakpoint. -/
structure Breakpoint where
  guest : UInt64
  host : HostAddr
deriving DecidableEq, Repr

/-- Holds a breakpoint at `guest`; nothing if it is no aligned address of code that could run now,
if the table is full, or if the host refuses. -/
def place (t : SiteTable) (m : MemoryMap) (guest : UInt64) :
    Option Breakpoint × SiteTable × MemoryMap :=
  let addr : GuestAddr := ⟨guest⟩
  if guest % 4 ≠ 0 || !m.isHostAccessible addr 4 .execute then (none, t, m)
  else
    match m.translate addr with
    | none => (none, t, m)
    | some mapping =>
      let host := mapping.hostAddr addr
      if t.contains host then (some ⟨guest, host⟩, t.share host, m)
      else if SiteTable.capacity ≤ t.sites.length then (none, t, m)
      else
        match writeCode m host (brk stepImm) mapping.perms with
        | none => (none, t, m)
        | some patched =>
          let site := { host, original := codeWord m host, perms := mapping.perms, holders := 1 }
          (some ⟨guest, host⟩, ⟨t.sites ++ [site]⟩, patched)

/-- Lets a breakpoint go. -/
def lift (t : SiteTable) (m : MemoryMap) (b : Breakpoint) : SiteTable × MemoryMap :=
  match t.release b.host with
  | (none, t) => (t, m)
  | (some site, t) => (t, (writeCode m b.host site.original site.perms).getD m)

/-- The breakpoints of one step. -/
structure StepPatch where
  breakpoints : List Breakpoint
deriving DecidableEq, Repr, Inhabited

/-- What preparing a step came to. -/
inductive Armed where
  | patched (patch : StepPatch)
  /-- The instruction branches to itself, so there is nothing to run. -/
  | selfLoop
deriving DecidableEq, Repr

namespace StepPatch

/-- The addresses to guard: every successor but `pc` itself, each once. -/
def targets (pc : UInt64) (s : Successors) : List UInt64 :=
  let second := (s.second.toList).filter fun target => target != pc && target != s.first
  if s.first = pc then second else s.first :: second

/-- Places breakpoints on the successors of the instruction at `pc`. If that cannot be read there
are none: the step will end in a fault. -/
def arm (t : SiteTable) (m : MemoryMap) (regs : Registers) : Armed × SiteTable × MemoryMap :=
  match m.read ⟨regs.pc⟩ 4 with
  | .error _ => (.patched ⟨[]⟩, t, m)
  | .ok bytes =>
    let s := successors regs.pc (UInt32.ofNat (ofLeBytes bytes)) regs
    if s = { first := regs.pc } then (.selfLoop, t, m)
    else
      let (placed, t, m) := (targets regs.pc s).foldl
        (fun (placed, t, m) target =>
          let (breakpoint, t, m) := place t m target
          (placed ++ breakpoint.toList, t, m))
        (([] : List Breakpoint), t, m)
      (.patched ⟨placed⟩, t, m)

/-- One of the step's breakpoints is at `pc`. -/
def hits (p : StepPatch) (pc : UInt64) : Bool := p.breakpoints.any (·.guest == pc)

/-- Lets all breakpoints go. -/
def disarm (p : StepPatch) (t : SiteTable) (m : MemoryMap) : SiteTable × MemoryMap :=
  p.breakpoints.foldl (fun (t, m) b => lift t m b) (t, m)

end StepPatch

end GuestExec.Native
