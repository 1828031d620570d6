import Mathlib.Data.List.Nodup
/-!
# SerialPaths — the endpoints of Modbus modules and the serial lines they claim

`SerialPathRegistry` maps the name of a running instance to the serial path it runs on.  It is kept as the list of its claims,
one per name.  `conflict` looks for a claim of the path under another name; which one it reports is left to the order of the
claims.
-/
namespace Ferrowl.Modbus

open List

inductive ModuleRole where
  | client
  | server
  | monitor
  deriving DecidableEq, Repr

def ModuleRole.text : ModuleRole → String
  | .client => "Client"
  | .server => "Server"
  | .monitor => "Monitor"

structure SerialLine where
  path : String
  baudRate : Nat
  parity : Option String
  dataBits : Option Nat
  stopBits : Option Nat
  deriving DecidableEq, Repr

def SerialLine.text (l : SerialLine) : String :=
  let bits (b : Option Nat) : String := b.elim "-" toString
  l.path ++ "," ++ toString l.baudRate ++ "," ++ l.parity.getD "-" ++ "," ++ bits l.dataBits ++ "," ++ bits l.stopBits

inductive Endpoint where
  | tcp (ip : String) (port : Nat)
  | rtuOverTcp (ip : String) (port : Nat)
  | rtu (line : SerialLine)
  | udp (ip : String) (port : Nat)
  | asciiOverTcp (ip : String) (port : Nat)
  | ascii (line : SerialLine)
  deriving DecidableEq, Repr

def Endpoint.text : Endpoint → String
  | .tcp ip port => ip ++ ":" ++ toString port
  | .rtuOverTcp ip port => ip ++ ":" ++ toString port ++ " (rtu/tcp)"
  | .rtu line => line.text
  | .udp ip port => ip ++ ":" ++ toString port ++ " (udp)"
  | .asciiOverTcp ip port => ip ++ ":" ++ toString port ++ " (ascii/tcp)"
  | .ascii line => line.text ++ " (ascii)"

def endpointSerialPath (expand : String → String) : Endpoint → Option String
  | .rtu line | .ascii line => some (expand line.path)
  | _ => none

structure ModuleSpec where
  name : String
  device : String
  role : ModuleRole
  endpoint : Endpoint
  deriving DecidableEq, Repr

structure SerialPathRegistry where
  claims : List (String × String)
  nodup : (claims.map Prod.fst).Nodup

namespace SerialPathRegistry

def empty : SerialPathRegistry := ⟨[], nodup_nil⟩

def release (r : SerialPathRegistry) (name : String) : SerialPathRegistry where
  claims := r.claims.filter (fun c => decide (c.1 ≠ name))
  nodup := r.nodup.sublist (filter_sublist.map Prod.fst)

variable {r : SerialPathRegistry}

theorem mem_release {name n p : String} : (n, p) ∈ (r.release name).claims ↔ (n, p) ∈ r.claims ∧ n ≠ name := by
  simp [release]

def claim (r : SerialPathRegistry) (name path : String) : SerialPathRegistry where
  claims := (name, path) :: (r.release name).claims
  nodup := by
    refine nodup_cons.2 ⟨fun h => ?_, (r.release name).nodup⟩
    obtain ⟨⟨n, p⟩, hm, hn⟩ := mem_map.1 h
    exact (mem_release.1 hm).2 hn

theorem mem_claim {name path n p : String} :
    (n, p) ∈ (r.claim name path).claims ↔ n = name ∧ p = path ∨ (n, p) ∈ r.claims ∧ n ≠ name := by
  rw [claim, mem_cons, Prod.mk.injEq, mem_release]

def conflict (r : SerialPathRegistry) (name path : String) : Option String :=
  (r.claims.find? (fun c => decide (c.1 ≠ name) && decide (c.2 = path))).map Prod.fst

theorem conflict_isSome {name path : String} : (r.conflict name path).isSome = true ↔ ∃ n, n ≠ name ∧ (n, path) ∈ r.claims := by
  rw [conflict, Option.isSome_map, List.find?_isSome]
  constructor
  · rintro ⟨⟨n, p⟩, hm, hc⟩
    simp only [Bool.and_eq_true, decide_eq_true_eq] at hc
    exact ⟨n, hc.1, hc.2 ▸ hm⟩
  · rintro ⟨n, hn, hm⟩
    exact ⟨(n, path), hm, by simp [hn]⟩

end SerialPathRegistry

/-- A module as the registry sees it: the name it claims under, the path it should hold and the registry. -/
structure Claimant where
  name : String
  path : Option String
  paths : SerialPathRegistry

namespace Claimant

/-- The claim under the module's name is the path it should hold. -/
def Owns (c : Claimant) : Prop := ∀ p, (c.name, p) ∈ c.paths.claims ↔ c.path = some p

/-- What a module may do to the registry: its own claim follows it, and the claims under other names stay. -/
structure Tidy (c d : Claimant) : Prop where
  owns : d.Owns
  frame : ∀ n p, n ≠ c.name → n ≠ d.name → ((n, p) ∈ d.paths.claims ↔ (n, p) ∈ c.paths.claims)
  gone : d.name ≠ c.name → ∀ p, (c.name, p) ∉ d.paths.claims
  fresh : d.name ≠ c.name → ∀ p, (d.name, p) ∉ c.paths.claims

theorem Owns.refl {c : Claimant} (h : c.Owns) : c.Tidy c :=
  ⟨h, fun _ _ _ _ => Iff.rfl, fun hn => absurd rfl hn, fun hn => absurd rfl hn⟩

theorem Tidy.trans {c d e : Claimant} (h : c.Tidy d) (h' : d.Tidy e) : c.Tidy e := by
  refine ⟨h'.owns, fun n p hc he => ?_, fun hec p hp => ?_, fun hec p hp => ?_⟩
  · by_cases hd : n = d.name
    · subst hd
      -- the name was taken up and given up on the way
      exact iff_of_false (h'.gone (Ne.symm he) p) (h.fresh hc p)
    · exact (h'.frame n p hd he).trans (h.frame n p hc hd)
  · by_cases hd : c.name = d.name
    · exact h'.gone (hd ▸ hec) p (hd ▸ hp)
    · exact h.gone (Ne.symm hd) p ((h'.frame c.name p hd (Ne.symm hec)).1 hp)
  · by_cases hd : e.name = d.name
    · exact h.fresh (hd ▸ hec) p (hd ▸ hp)
    · exact h'.fresh hd p ((h.frame e.name p hec hd).2 hp)

theorem Tidy.free {c d : Claimant} (h : c.Tidy d) {n : String} (hc : n ≠ c.name → ∀ p, (n, p) ∉ c.paths.claims)
    (hd : n ≠ d.name) (p : String) : (n, p) ∉ d.paths.claims := by
  by_cases hn : n = c.name
  · subst hn
    exact h.gone (Ne.symm hd) p
  · exact fun hm => hc hn p ((h.frame n p hn hd).1 hm)

theorem tidy_claim (c : Claimant) (path : String) : c.Tidy ⟨c.name, some path, c.paths.claim c.name path⟩ := by
  refine ⟨fun p => ?_, fun n p hn _ => ?_, fun hn => absurd rfl hn, fun hn => absurd rfl hn⟩
  · rw [SerialPathRegistry.mem_claim, Option.some_inj]
    simp [eq_comm]
  · rw [SerialPathRegistry.mem_claim]
    simp [hn]

theorem tidy_release (c : Claimant) : c.Tidy ⟨c.name, none, c.paths.release c.name⟩ := by
  refine ⟨fun p => ?_, fun n p hn _ => ?_, fun hn => absurd rfl hn, fun hn => absurd rfl hn⟩
  · rw [SerialPathRegistry.mem_release]
    simp
  · rw [SerialPathRegistry.mem_release]
    simp [hn]

theorem Owns.tidy_rename {c : Claimant} (h : c.Owns) (hnone : c.path = none) {name : String}
    (hfree : name ≠ c.name → ∀ p, (name, p) ∉ c.paths.claims) : c.Tidy ⟨name, none, c.paths⟩ := by
  have hno : ∀ p, (c.name, p) ∉ c.paths.claims := fun p hp => by
    rw [h p, hnone] at hp
    cases hp
  refine ⟨fun p => iff_of_false ?_ nofun, fun _ _ _ _ => Iff.rfl, fun _ => hno, hfree⟩
  by_cases hn : name = c.name
  · exact hn ▸ hno p
  · exact hfree hn p

end Claimant

end Ferrowl.Modbus
