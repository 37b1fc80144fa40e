import HassOS.Framework.Run
import HassOS.Framework.Text
import Mathlib.Logic.Function.Basic

/-!
# Time servers from DHCP (the dispatcher script `10-ntp`)

The script writes one drop-in of timesyncd for all interfaces: each event that it
looks at puts its own servers there, or removes the drop-in if it has none, of
whichever interface it is (`conf_run`). `Ledger` is what interfaces that are up
have announced, most recent first. The drop-in follows the ledger in just the runs
whose events each agree with it (`follows_iff`).
-/

namespace HassOS.Network

open Framework

inductive Action
  | up
  | down
  | dhcp4Change
  | other
deriving DecidableEq

/-- A call of the dispatcher, with `DHCP4_NTP_SERVERS` (empty if it is not set). -/
structure Event where
  interface : Line
  action : Action
  dhcp4NtpServers : Line
deriving DecidableEq

/-- The drop-in, if it exists, and the one that timesyncd was started with. -/
structure State where
  timesyncdConf : Option Text
  started : Option Text
deriving DecidableEq

/-- `/run` is empty after a boot. -/
def State.boot : State := ⟨none, none⟩

/-- `systemctl restart systemd-timesyncd.service` -/
def State.restart (s : State) : State := { s with started := s.timesyncdConf }

def timesyncdDhcpNtpRemove (s : State) : State :=
  if s.timesyncdConf.isSome then { s with timesyncdConf := none }.restart else s

def dropIn (servers : Line) : Text := ["[Time]".toList, "NTP=".toList ++ servers]

def timesyncdDhcpNtpAdd (servers : Line) (s : State) : State :=
  { s with timesyncdConf := some (dropIn servers) }.restart

/-- The script. -/
def dispatch (s : State) (e : Event) : State :=
  match e.action with
  | .up | .down | .dhcp4Change =>
    if e.dhcp4NtpServers ≠ [] then timesyncdDhcpNtpAdd e.dhcp4NtpServers s else timesyncdDhcpNtpRemove s
  | .other => s

/-- The servers of an event, if it has some. -/
def Event.servers (e : Event) : Option Line :=
  if e.dhcp4NtpServers = [] then none else some e.dhcp4NtpServers

/-! ## What interfaces announce -/

structure Lease where
  interface : Line
  servers : Line
deriving DecidableEq

/-- The interfaces that are up, and their leases with servers, most recent first. -/
structure Ledger where
  up : Line → Bool
  leases : List Lease
  live : ∀ l ∈ leases, up l.interface = true

namespace Ledger

def start : Ledger := ⟨fun _ => false, [], by simp⟩

def others (l : Ledger) (i : Line) : List Lease := l.leases.filter (·.interface ≠ i)

theorem live_others {l : Ledger} {i : Line} {x : Lease} (h : x ∈ l.others i) :
    x.interface ≠ i ∧ l.up x.interface = true := by
  obtain ⟨hx, hne⟩ := List.mem_filter.mp h
  exact ⟨by simpa using hne, l.live x hx⟩

/-- An interface that is up has a new lease. -/
def announce (l : Ledger) (e : Event) : Ledger where
  up := Function.update l.up e.interface true
  leases := (e.servers.map (⟨e.interface, ·⟩)).toList ++ l.others e.interface
  live x hx := by
    rcases List.mem_append.mp hx with hx | hx
    · obtain ⟨s, -, rfl⟩ : ∃ s, e.servers = some s ∧ ⟨e.interface, s⟩ = x := by simpa using hx
      exact Function.update_self _ _ _
    · obtain ⟨hne, hup⟩ := live_others hx
      rw [Function.update_of_ne hne, hup]

def remove (l : Ledger) (i : Line) : Ledger where
  up := Function.update l.up i false
  leases := l.others i
  live x hx := by
    obtain ⟨hne, hup⟩ := live_others hx
    rw [Function.update_of_ne hne, hup]

def step (l : Ledger) (e : Event) : Ledger :=
  match e.action with
  | .up => l.announce e
  | .down => l.remove e.interface
  | .dhcp4Change => if l.up e.interface then l.announce e else l
  | .other => l

/-- The servers of the most recent lease. -/
def servers (l : Ledger) : Option Line := l.leases.head?.map Lease.servers

/-- The event announces servers, of an interface that is up, or it has the servers
that the other interfaces have announced last. -/
def Agrees (l : Ledger) (e : Event) : Prop :=
  (e.dhcp4NtpServers ≠ [] ∧ (e.action = .up ∨ e.action = .dhcp4Change ∧ l.up e.interface = true)) ∨
    (l.others e.interface).head?.map Lease.servers = e.servers

end Ledger

/-! ## Runs -/

section

variable {s : State} {e : Event} {l : Ledger}

theorem dropIn_inj {a b : Line} : dropIn a = dropIn b ↔ a = b := by simp [dropIn]

theorem conf_remove (s : State) : (timesyncdDhcpNtpRemove s).timesyncdConf = none := by
  unfold timesyncdDhcpNtpRemove
  split
  · rfl
  · rename_i h
    simpa using h

/-- Any event that the script looks at sets the drop-in to its own servers. -/
theorem conf_dispatch (s : State) (e : Event) : (dispatch s e).timesyncdConf =
    if e.action ≠ .other then e.servers.map dropIn else s.timesyncdConf := by
  have hset : (if e.dhcp4NtpServers ≠ [] then timesyncdDhcpNtpAdd e.dhcp4NtpServers s
      else timesyncdDhcpNtpRemove s).timesyncdConf = e.servers.map dropIn := by
    unfold Event.servers
    by_cases h : e.dhcp4NtpServers = []
    · simp [h, conf_remove]
    · simp [h, timesyncdDhcpNtpAdd, State.restart]
  unfold dispatch
  cases h : e.action with
  | up => simpa using hset
  | down => simpa using hset
  | dhcp4Change => simpa using hset
  | other => rfl

theorem started_dispatch (h : s.started = s.timesyncdConf) (e : Event) :
    (dispatch s e).started = (dispatch s e).timesyncdConf := by
  unfold dispatch timesyncdDhcpNtpRemove
  repeat' split
  all_goals first | exact h | rfl

/-- The last event that the script looked at decides. -/
theorem conf_run (s : State) (es : List Event) : (run dispatch s es).timesyncdConf =
    ((es.filter (·.action ≠ .other)).getLast?.map fun e => e.servers.map dropIn).getD s.timesyncdConf :=
  run_last State.timesyncdConf (fun e => e.action ≠ .other)
    (fun s e => by rw [conf_dispatch]; simp) s es

theorem started_run (es : List Event) :
    (run dispatch .boot es).started = (run dispatch .boot es).timesyncdConf :=
  run_keeps (I := fun s : State => s.started = s.timesyncdConf) (fun _ e h => started_dispatch h e) rfl es

namespace Ledger

@[simp] theorem servers_start : start.servers = none := rfl

theorem step_other (h : e.action = .other) : l.step e = l := by rw [step, h]

theorem servers_announce : (l.announce e).servers =
    e.servers.or ((l.others e.interface).head?.map Lease.servers) := by
  cases h : e.servers with
  | none => simp [servers, announce, h]
  | some v => simp [servers, announce, h]

/-- An interface that is not up has no lease. -/
theorem others_of_down {i : Line} (h : l.up i = false) : l.others i = l.leases := by
  refine List.filter_eq_self.mpr fun x hx => ?_
  have hup := l.live x hx
  rw [decide_eq_true_eq]
  intro hi
  rw [hi, h] at hup
  exact absurd hup (by simp)

theorem servers_announce_iff :
    e.servers = (l.announce e).servers ↔ e.dhcp4NtpServers ≠ [] ∨
      (l.others e.interface).head?.map Lease.servers = e.servers := by
  rw [servers_announce]
  by_cases h : e.dhcp4NtpServers = []
  · simp [Event.servers, h, eq_comm]
  · simp [Event.servers, h]

theorem agrees_iff (h : e.action ≠ .other) : e.servers = (l.step e).servers ↔ l.Agrees e := by
  unfold step Agrees
  cases ha : e.action with
  | up => simpa using servers_announce_iff
  | down => simpa [servers, remove] using eq_comm
  | dhcp4Change =>
    cases hup : l.up e.interface with
    | true => simpa using servers_announce_iff
    | false => simpa [servers, others_of_down hup] using eq_comm
  | other => exact absurd ha h

end Ledger

/-- The drop-in is what the ledger has, before and after. -/
theorem follows_dispatch (h : s.timesyncdConf = l.servers.map dropIn) :
    (dispatch s e).timesyncdConf = (l.step e).servers.map dropIn ↔ e.action = .other ∨ l.Agrees e := by
  by_cases ha : e.action = .other
  · rw [conf_dispatch, Ledger.step_other ha]
    simp [ha, h]
  · have hmap : e.servers.map dropIn = (l.step e).servers.map dropIn ↔ e.servers = (l.step e).servers :=
      (Option.map_injective fun _ _ => dropIn_inj.mp).eq_iff
    rw [conf_dispatch, if_pos ha, hmap, Ledger.agrees_iff ha]
    simp [ha]

end

/-- After every event of a run the drop-in has the servers of the most recent lease
among the interfaces that are up. -/
def Follows (es : List Event) : Prop :=
  ∀ pre, pre <+: es →
    (run dispatch .boot pre).timesyncdConf = (run Ledger.step .start pre).servers.map dropIn

theorem follows_iff (es : List Event) : Follows es ↔
    ∀ pre e post, es = pre ++ e :: post →
      e.action = .other ∨ (run Ledger.step .start pre).Agrees e := by
  constructor
  · intro h pre e post hes
    have hpre := h pre (by rw [hes]; exact List.prefix_append _ _)
    have hafter := h (pre ++ [e]) (by rw [hes]; simp)
    rw [run_snoc, run_snoc] at hafter
    exact (follows_dispatch hpre).mp hafter
  · intro h pre
    induction pre using List.reverseRecOn with
    | nil => exact fun _ => rfl
    | append_singleton pre e ih =>
      intro hp
      obtain ⟨post, hes⟩ := hp
      rw [List.append_assoc, List.singleton_append] at hes
      have hpre := ih ⟨_, hes⟩
      rw [run_snoc, run_snoc]
      exact (follows_dispatch hpre).mpr (h pre e post hes.symm)

/-- After any events the drop-in has the servers of the last one that the script
looks at, of whichever interface, and timesyncd was started with it. It follows the
ledger in just the runs whose events agree with the ledger. -/
theorem ntp_last_event (es : List Event) :
    ((run dispatch .boot es).timesyncdConf =
      (es.filter (·.action ≠ .other)).getLast?.bind fun e => e.servers.map dropIn) ∧
    (run dispatch .boot es).started = (run dispatch .boot es).timesyncdConf ∧
    (Follows es ↔ ∀ pre e post, es = pre ++ e :: post →
      e.action = .other ∨ (run Ledger.step .start pre).Agrees e) := by
  refine ⟨?_, started_run es, follows_iff es⟩
  rw [conf_run]
  cases (es.filter (·.action ≠ .other)).getLast? with
  | none => rfl
  | some e => rfl

/-- Ethernet comes up with servers, and then Wi-Fi without: the drop-in is gone,
with Ethernet still up. -/
theorem wifi_removes_ethernet_servers :
    ¬ ∀ es, (run dispatch .boot es).timesyncdConf = (run Ledger.step .start es).servers.map dropIn := by
  intro h
  have := h [⟨"eth0".toList, .up, "192.0.2.1".toList⟩, ⟨"wlan0".toList, .up, []⟩]
  exact absurd this (by decide +kernel)

end HassOS.Network
