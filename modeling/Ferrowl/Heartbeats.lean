import Ferrowl.OcppTransactions
/-!
# Heartbeats — when a charging station sends its heartbeats

A connected station counts its refreshes and sends a heartbeat when the count reaches the interval of the CSMS, in ticks of a
tenth of a second (`client/view/backend.rs`).  The interval is a number of seconds in 64 bits; the count and the product it is
compared with have 32.  A product that does not fit wraps around, or stops a program that is built with overflow checks.
-/
namespace Ferrowl.Ocpp

open Option

open Wire (Value)

def ticksPerSec : Nat := 10

def defaultHeartbeatSecs : Nat := 30

/-- `interval_secs as u32 * TICKS_PER_SEC`, which may overflow. -/
def heartbeatTicks (checks : Bool) (secs : Nat) : Option Nat :=
  let product := secs % 2 ^ 32 * ticksPerSec
  if checks ∧ 2 ^ 32 ≤ product then none else some (product % 2 ^ 32)

/-- What a view keeps for its heartbeats, and the interval of its station. -/
structure Heartbeats where
  tick : Nat
  wasOnline : Bool
  intervalSecs : Option Nat

namespace Heartbeats

def booted (s : Heartbeats) (response : Value) : Heartbeats := { s with intervalSecs := V2.bootInterval response }

def secs (s : Heartbeats) : Nat := max (s.intervalSecs.getD defaultHeartbeatSecs) 1

def refresh (checks : Bool) (s : Heartbeats) (online : Bool) : Option (Bool × Heartbeats) :=
  let s := if s.wasOnline && !online then { s with tick := 0 } else s
  let s := { s with wasOnline := online }
  if online then
    let tick := (s.tick + 1) % 2 ^ 32
    (heartbeatTicks checks s.secs).map fun ticks =>
      if ticks ≤ tick then (true, { s with tick := 0 }) else (false, { s with tick := tick })
  else some (false, s)

def refreshes (checks : Bool) : Nat → Heartbeats → Option (List Bool × Heartbeats)
  | 0, s => some ([], s)
  | n + 1, s =>
    (s.refresh checks true).bind fun (sent, s) => (refreshes checks n s).map fun (sends, s) => (sent :: sends, s)

variable {checks : Bool}

variable {s : Heartbeats}

theorem refresh_online {k : Nat} (hk : heartbeatTicks checks s.secs = some k) :
    s.refresh checks true = some (if k ≤ (s.tick + 1) % 2 ^ 32 then (true, { s with tick := 0, wasOnline := true })
      else (false, { s with tick := (s.tick + 1) % 2 ^ 32, wasOnline := true })) := by
  unfold secs at hk
  simp [refresh, secs, hk]

theorem refreshes_of_lt {k : Nat} (hlt : k < 2 ^ 32) (n : Nat) (hk : heartbeatTicks checks s.secs = some k) (hs : s.tick < k) :
    ∃ u, s.refreshes checks n = some ((List.range n).map fun m => decide (k ∣ s.tick + m + 1), u) := by
  induction n generalizing s with
  | zero => exact ⟨s, rfl⟩
  | succ n ih =>
    have hmod : (s.tick + 1) % 2 ^ 32 = s.tick + 1 := Nat.mod_eq_of_lt (by omega)
    have hdvd : k ∣ s.tick + 1 ↔ k ≤ s.tick + 1 := by
      constructor
      · exact Nat.le_of_dvd (Nat.succ_pos _)
      · intro hle
        have heq : s.tick + 1 = k := by omega
        exact heq ▸ Nat.dvd_refl _
    rw [refreshes, refresh_online hk, hmod, List.range_succ_eq_map, List.map_cons, List.map_map]
    by_cases hdue : k ≤ s.tick + 1
    · -- the count starts anew
      obtain ⟨u, hu⟩ := ih (s := { s with tick := 0, wasOnline := true }) hk (by simp only; omega)
      refine ⟨u, ?_⟩
      have htick : s.tick + 1 = k := by omega
      have hrest : ∀ m, k ∣ s.tick + (m + 1) + 1 ↔ k ∣ 0 + m + 1 := by
        intro m
        rw [show s.tick + (m + 1) + 1 = k + (0 + m + 1) by omega]
        exact Nat.dvd_add_right (Nat.dvd_refl k)
      simp [if_pos hdue, hu, hdvd.2 hdue, Function.comp_def, hrest]
    · obtain ⟨u, hu⟩ := ih (s := { s with tick := s.tick + 1, wasOnline := true }) hk (by simp only; omega)
      refine ⟨u, ?_⟩
      have hrest : ∀ m, s.tick + (m + 1) + 1 = s.tick + 1 + m + 1 := fun m => by omega
      simp [if_neg hdue, hu, mt hdvd.1 hdue, Function.comp_def, hrest]

theorem refreshes_cadence {k : Nat} (hpos : 0 < k) (hlt : k < 2 ^ 32) (n : Nat) (hk : heartbeatTicks checks s.secs = some k) :
    ∃ sends u, s.refreshes checks n = some (sends, u) ∧ sends.length = n ∧
      ∀ p, sends[p]? = some true → ∀ j, p + j < n → (sends[p + j]? = some true ↔ k ∣ j) := by
  induction n generalizing s with
  | zero => exact ⟨[], s, rfl, rfl, nofun⟩
  | succ n ih =>
    rw [refreshes, refresh_online hk]
    by_cases hdue : k ≤ (s.tick + 1) % 2 ^ 32
    · obtain ⟨sends, u, hrun, hlen, hcad⟩ := ih (s := { s with tick := 0, wasOnline := true }) hk
      refine ⟨true :: sends, u, by simp only [if_pos hdue, bind_some, hrun, map_some], by simp [hlen], ?_⟩
      intro p hp j hj
      cases p with
      | succ p =>
        have hj' : p + j < n := by omega
        rw [Nat.add_right_comm, List.getElem?_cons_succ]
        exact hcad p hp j hj'
      | zero =>
        -- the count starts anew with this heartbeat
        obtain ⟨u', hrun'⟩ := refreshes_of_lt hlt n (s := { s with tick := 0, wasOnline := true }) hk hpos
        cases hrun.symm.trans hrun'
        cases j with
        | zero => simp
        | succ j =>
          have hj' : j < n := by omega
          simp [List.getElem?_range hj']
    · obtain ⟨sends, u, hrun, hlen, hcad⟩ := ih (s := { s with tick := (s.tick + 1) % 2 ^ 32, wasOnline := true }) hk
      refine ⟨false :: sends, u, by simp only [if_neg hdue, bind_some, hrun, map_some], by simp [hlen], ?_⟩
      intro p hp j hj
      cases p with
      | zero => exact nomatch hp
      | succ p =>
        have hj' : p + j < n := by omega
        rw [Nat.add_right_comm, List.getElem?_cons_succ]
        exact hcad p hp j hj'

end Heartbeats

/-! ## Intervals -/

theorem heartbeatTicks_of_le (checks : Bool) {secs : Nat} (h : secs ≤ 429496729) :
    heartbeatTicks checks secs = some (10 * secs) := by
  have hsecs : secs % 2 ^ 32 = secs := Nat.mod_eq_of_lt (by omega)
  have hfits : secs * 10 < 2 ^ 32 := by omega
  simp only [heartbeatTicks, ticksPerSec, hsecs]
  rw [if_neg (fun h => Nat.not_le.2 hfits h.2), Nat.mod_eq_of_lt hfits, Nat.mul_comm]

namespace Heartbeats

theorem secs_booted (s : Heartbeats) {response : Value} {interval : Nat}
    (h : (response.get "interval").bind Value.asU64 = some interval) (hpos : 1 ≤ interval) :
    (s.booted response).secs = max 1 interval := by
  have hboot : V2.bootInterval response = some interval := by
    rw [V2.bootInterval, h, filter_some]
    exact if_pos (decide_eq_true hpos)
  simp only [secs, booted, hboot, getD_some]
  exact Nat.max_comm _ _

/-- **The heartbeats of a connected station keep the interval of the CSMS**, when it is positive and its ticks fit into 32
bits: counted from any heartbeat, the next ones come at the multiples of ten times the interval. -/
theorem heartbeat_cadence (checks : Bool) (s : Heartbeats) (response : Value) (interval : Nat)
    (hreply : (response.get "interval").bind Value.asU64 = some interval) (hpos : 1 ≤ interval)
    (hfits : interval ≤ 429496729) (n : Nat) :
    10 ≤ 10 * max 1 interval ∧ ∃ sends u, (s.booted response).refreshes checks n = some (sends, u) ∧ sends.length = n ∧
      ∀ p, sends[p]? = some true → ∀ j, p + j < n → (sends[p + j]? = some true ↔ 10 * max 1 interval ∣ j) := by
  have hticks : heartbeatTicks checks (s.booted response).secs = some (10 * max 1 interval) := by
    rw [s.secs_booted hreply hpos]
    exact heartbeatTicks_of_le checks (by omega)
  exact ⟨by omega, refreshes_cadence (by omega) (by omega) n hticks⟩

def bootReply (interval : Fin (2 ^ 64)) : Value := .object [("interval", .number (.posInt interval))]

/-- A heartbeat every ten refreshes. -/
theorem heartbeat_cadence_one_second : ∃ sends u,
    (Heartbeats.booted ⟨0, false, none⟩ (bootReply 1)).refreshes false 30 = some (sends, u) ∧ sends.length = 30 ∧
      ∀ p, sends[p]? = some true → ∀ j, p + j < 30 → (sends[p + j]? = some true ↔ 10 * max 1 1 ∣ j) :=
  (heartbeat_cadence false ⟨0, false, none⟩ (bootReply 1) 1 rfl (by decide) (by decide) 30).2

/-- **The ticks of a long interval do not fit**: heartbeats come every four refreshes, or the first refresh stops the program. -/
theorem long_interval_beats_early : ((Heartbeats.booted ⟨0, false, none⟩ (bootReply 429496730)).refreshes false 12).map Prod.fst =
        some [false, false, false, true, false, false, false, true, false, false, false, true] ∧
      ((Heartbeats.booted ⟨0, false, none⟩ (bootReply 429496730)).refreshes true 1).isNone := by
  decide

end Heartbeats
end Ferrowl.Ocpp
