import HassOS.Framework.Chain
import HassOS.Framework.Text
import Mathlib.Data.Fintype.EquivFin

/-!
# The protection of a bridge's subnet (Docker's `iptabler` and `nftabler`)

The patched Docker drops packets to the subnet of a bridge that come in from
outside (raw `PREROUTING`). One backend installs rules that accept packets from
the loopback and the trusted interfaces, and then one that drops those not from
the bridge (`setSubnetProtection`); the other a single rule with the set of all
these names (`configure`). How the two tools read a name in a rule is left open
(`Reading`).

Where both install their rules, they drop the same packets, if both read the
names alike (`iptablesDrops_iff`, `nftablesDrops_iff`). But `configure`
does not look at the gateway mode: it also protects networks that are routed or
not to be protected (`agree_iff`).
-/

namespace HassOS.Docker

open Framework

variable {w : ℕ}

/-- A valid `netip.Prefix`, of addresses of `w` bits. -/
structure Prefix (w : ℕ) where
  addr : BitVec w
  bits : ℕ

/-- The address lies in the subnet. -/
def Prefix.contains (subnet : Prefix w) (a : BitVec w) : Bool :=
  a >>> (w - subnet.bits) = subnet.addr >>> (w - subnet.bits)

/-- `firewaller.NetworkConfigFam` -/
structure NetworkConfigFam (w : ℕ) where
  /-- `Prefix`, if it is valid. -/
  subnet : Option (Prefix w)
  unprotected : Bool
  routed : Bool

/-- `firewaller.NetworkConfig` of a network that is not internal. -/
structure NetworkConfig where
  ifName : Line
  trustedHostInterfaces : List Line

/-- `firewaller.Config` -/
structure Config where
  allowDirectRouting : Bool

structure Packet (w : ℕ) where
  dst : BitVec w
  /-- The interface it comes in from. -/
  iif : Line

/-- Whether a name in a rule stands for an interface. -/
structure Reading where
  iptables : Line → Line → Bool
  nft : Line → Line → Bool

/-- `-d subnet -i ifName -j target`, with `! -i` if `negated`. -/
structure IptablesRule (w : ℕ) where
  subnet : Prefix w
  negated : Bool
  ifName : Line
  target : Target

/-- `daddr subnet iifname != { ifNames } drop` -/
structure NftablesRule (w : ℕ) where
  subnet : Prefix w
  ifNames : List Line

def IptablesRule.rule (rd : Reading) (r : IptablesRule w) : Rule (Packet w) where
  test p := r.subnet.contains p.dst && (rd.iptables r.ifName p.iif != r.negated)
  target := r.target

def NftablesRule.rule (rd : Reading) (r : NftablesRule w) : Rule (Packet w) where
  test p := r.subnet.contains p.dst && !r.ifNames.any (rd.nft · p.iif)
  target := .drop

def lo : Line := "lo".toList

/-- The rules that `setSubnetProtection` appends, none if it is to delete them. -/
def setSubnetProtection (fw : Config) (rawRulesDisabled : Bool) (n : NetworkConfig) (config : NetworkConfigFam w)
    (enable : Bool) : List (IptablesRule w) :=
  match config.subnet with
  | none => []
  | some subnet =>
    if config.unprotected || config.routed then []
    else
      let enable := if fw.allowDirectRouting || rawRulesDisabled then false else enable
      let loAccept := ⟨subnet, false, lo, .accept⟩
      let accepts := n.trustedHostInterfaces.map fun ifName => ⟨subnet, false, ifName, .accept⟩
      let extDrop := ⟨subnet, true, n.ifName, .drop⟩
      if enable then loAccept :: accepts ++ [extDrop] else []

/-- The rule that `configure` creates for the subnet. -/
def configure (fw : Config) (n : NetworkConfig) (conf : NetworkConfigFam w) : List (NftablesRule w) :=
  match conf.subnet with
  | none => []
  | some subnet =>
    if fw.allowDirectRouting then []
    else [⟨subnet, [n.ifName, lo] ++ n.trustedHostInterfaces⟩]

section

variable (rd : Reading) (fw : Config) (n : NetworkConfig) (conf : NetworkConfigFam w)

/-- The rules of `iptabler` drop the packet, the raw rules not being disabled. -/
def IptablesDrops (p : Packet w) : Prop :=
  Drops ((setSubnetProtection fw false n conf true).map (·.rule rd)) p

/-- The rule of `nftabler` drops it. -/
def NftablesDrops (p : Packet w) : Prop := Drops ((configure fw n conf).map (·.rule rd)) p

/-- The two agree on every packet, and drop none where direct access is intended. -/
structure Agree : Prop where
  same : ∀ p, IptablesDrops rd fw n conf p ↔ NftablesDrops rd fw n conf p
  intended : conf.unprotected ∨ conf.routed →
    ∀ p, ¬ IptablesDrops rd fw n conf p ∧ ¬ NftablesDrops rd fw n conf p

end

/-- The names in the rules. -/
def NetworkConfig.names (n : NetworkConfig) : List Line := n.ifName :: lo :: n.trustedHostInterfaces

/-- A tool that reads names so lets packets from the interface `iif` through. -/
def NetworkConfig.Admits (n : NetworkConfig) (reads : Line → Line → Bool) (iif : Line) : Prop :=
  ∃ m ∈ n.names, reads m iif = true

section

variable {rd : Reading} {fw : Config} {n : NetworkConfig} {conf : NetworkConfigFam w} {subnet : Prefix w}
  {p : Packet w}

theorem Prefix.contains_addr (subnet : Prefix w) : subnet.contains subnet.addr = true := decide_eq_true rfl

/-- No rule, no drop: without a valid prefix, with direct routing, or where
direct access is intended; -/
theorem not_iptablesDrops (h : conf.subnet = none ∨ fw.allowDirectRouting = true ∨
    (conf.unprotected || conf.routed) = true) :
    ¬ IptablesDrops rd fw n conf p := by
  have hnil : setSubnetProtection fw false n conf true = [] := by
    unfold setSubnetProtection
    cases hs : conf.subnet with
    | none => rfl
    | some subnet =>
      rcases h with h | h | h
      · rw [hs] at h
        cases h
      · simp [h]
      · simp [h]
  rw [IptablesDrops, hnil]
  exact not_drops_nil p

/-- and else the packets to the subnet that no name admits. -/
theorem iptablesDrops_iff (hs : conf.subnet = some subnet) (hr : fw.allowDirectRouting = false)
    (hf : (conf.unprotected || conf.routed) = false) :
    IptablesDrops rd fw n conf p ↔ subnet.contains p.dst = true ∧ ¬ n.Admits rd.iptables p.iif := by
  have hrules : setSubnetProtection fw false n conf true = (lo :: n.trustedHostInterfaces).map
      (fun ifName => ⟨subnet, false, ifName, .accept⟩) ++ [⟨subnet, true, n.ifName, .drop⟩] := by
    simp [setSubnetProtection, hs, hr, hf]
  have haccept : ∀ r ∈ ((lo :: n.trustedHostInterfaces).map fun ifName =>
      IptablesRule.rule rd ⟨subnet, false, ifName, .accept⟩), r.target = .accept := by
    intro r hm
    obtain ⟨ifName, -, rfl⟩ := List.mem_map.mp hm
    rfl
  rw [IptablesDrops, hrules, List.map_append, List.map_map]
  refine (drops_accepts_append haccept).trans ?_
  rw [List.map_singleton, drops_singleton rfl, List.forall_mem_map]
  by_cases hc : subnet.contains p.dst = true
  · simp [NetworkConfig.Admits, NetworkConfig.names, IptablesRule.rule, hc]
    tauto
  · simp [IptablesRule.rule, hc]

/-- The single rule is there without regard to the gateway mode, -/
theorem not_nftablesDrops (h : conf.subnet = none ∨ fw.allowDirectRouting = true) :
    ¬ NftablesDrops rd fw n conf p := by
  have hnil : configure fw n conf = [] := by
    unfold configure
    cases hs : conf.subnet with
    | none => rfl
    | some subnet =>
      rcases h with h | h
      · rw [hs] at h
        cases h
      · simp [h]
  rw [NftablesDrops, hnil]
  exact not_drops_nil p

/-- and drops what no name admits. -/
theorem nftablesDrops_iff (hs : conf.subnet = some subnet) (hr : fw.allowDirectRouting = false) :
    NftablesDrops rd fw n conf p ↔ subnet.contains p.dst = true ∧ ¬ n.Admits rd.nft p.iif := by
  have hrule : configure fw n conf = [⟨subnet, n.names⟩] := by
    simp [configure, hs, hr, NetworkConfig.names]
  rw [NftablesDrops, hrule, List.map_singleton, drops_singleton rfl]
  simp [NftablesRule.rule, NetworkConfig.Admits]

/-- Without rules the two agree. -/
theorem agree_of_not_protected (h : conf.subnet = none ∨ fw.allowDirectRouting = true) : Agree rd fw n conf := by
  have hi : ∀ p, ¬ IptablesDrops rd fw n conf p := fun p => not_iptablesDrops (h.imp_right .inl)
  have hn : ∀ p, ¬ NftablesDrops rd fw n conf p := fun p => not_nftablesDrops h
  exact ⟨fun p => iff_of_false (hi p) (hn p), fun _ p => ⟨hi p, hn p⟩⟩

/-- Where direct access is intended, they agree if the single rule drops nothing. -/
theorem agree_iff_of_intended (hs : conf.subnet = some subnet) (hr : fw.allowDirectRouting = false)
    (hf : (conf.unprotected || conf.routed) = true) : Agree rd fw n conf ↔ ∀ iif, n.Admits rd.nft iif := by
  have hi : ∀ p, ¬ IptablesDrops rd fw n conf p := fun p => not_iptablesDrops (.inr (.inr hf))
  constructor
  · intro h iif
    have hn : ¬ NftablesDrops rd fw n conf ⟨subnet.addr, iif⟩ := fun hd => hi _ ((h.same _).mpr hd)
    rw [nftablesDrops_iff hs hr] at hn
    by_contra hadm
    exact hn ⟨subnet.contains_addr, hadm⟩
  · intro h
    have hn : ∀ p, ¬ NftablesDrops rd fw n conf p := by
      intro p hd
      exact ((nftablesDrops_iff hs hr).mp hd).2 (h p.iif)
    exact ⟨fun p => iff_of_false (hi p) (hn p), fun _ p => ⟨hi p, hn p⟩⟩

/-- Where both have their rules, they agree if the two tools read the names alike. -/
theorem agree_iff_of_protected (hs : conf.subnet = some subnet) (hr : fw.allowDirectRouting = false)
    (hf : (conf.unprotected || conf.routed) = false) :
    Agree rd fw n conf ↔ ∀ iif, n.Admits rd.iptables iif ↔ n.Admits rd.nft iif := by
  have hno : ¬ (conf.unprotected = true ∨ conf.routed = true) := by
    rw [← Bool.or_eq_true, hf]
    exact Bool.false_ne_true
  constructor
  · intro h iif
    have hp := h.same ⟨subnet.addr, iif⟩
    rw [iptablesDrops_iff hs hr hf, nftablesDrops_iff hs hr] at hp
    simpa only [subnet.contains_addr, true_and, not_iff_not] using hp
  · intro h
    refine ⟨fun p => ?_, fun hx => absurd hx hno⟩
    rw [iptablesDrops_iff hs hr hf, nftablesDrops_iff hs hr, h]

/-- Names that the two tools take as they are: then the gateway mode is all that matters. -/
theorem agree_iff_of_literal (h : ∀ m ∈ n.names, ∀ iif,
    (rd.iptables m iif = true ↔ m = iif) ∧ (rd.nft m iif = true ↔ m = iif)) :
    Agree rd fw n conf ↔
      conf.subnet = none ∨ fw.allowDirectRouting = true ∨ (conf.unprotected || conf.routed) = false := by
  have hnft : ∀ iif, n.Admits rd.nft iif ↔ iif ∈ n.names := by
    intro iif
    refine (exists_congr fun m => and_congr_right fun hm => (h m hm iif).2).trans ?_
    exact exists_eq_right
  have hipt : ∀ iif, n.Admits rd.iptables iif ↔ iif ∈ n.names := by
    intro iif
    refine (exists_congr fun m => and_congr_right fun hm => (h m hm iif).1).trans ?_
    exact exists_eq_right
  cases hs : conf.subnet with
  | none => exact iff_of_true (agree_of_not_protected (.inl hs)) (.inl rfl)
  | some subnet =>
    cases hr : fw.allowDirectRouting with
    | true => exact iff_of_true (agree_of_not_protected (.inr hr)) (.inr (.inl rfl))
    | false =>
      cases hf : conf.unprotected || conf.routed with
      | false =>
        rw [agree_iff_of_protected hs hr hf]
        exact iff_of_true (fun iif => (hipt iif).trans (hnft iif).symm) (.inr (.inr rfl))
      | true =>
        rw [agree_iff_of_intended hs hr hf]
        refine iff_of_false (fun hall => ?_) (by simp)
        obtain ⟨iif, hi⟩ := Infinite.exists_notMem_finset n.names.toFinset
        exact hi (List.mem_toFinset.mpr ((hnft iif).mp (hall iif)))

theorem agree_iff (rd : Reading) (fw : Config) (n : NetworkConfig) (conf : NetworkConfigFam w) :
    Agree rd fw n conf ↔ (conf.subnet.isSome = true → fw.allowDirectRouting = false →
      if conf.unprotected || conf.routed then ∀ iif, n.Admits rd.nft iif
      else ∀ iif, n.Admits rd.iptables iif ↔ n.Admits rd.nft iif) := by
  cases hs : conf.subnet with
  | none => exact iff_of_true (agree_of_not_protected (.inl hs)) fun h => absurd h (by simp)
  | some subnet =>
    cases hr : fw.allowDirectRouting with
    | true => exact iff_of_true (agree_of_not_protected (.inr hr)) fun _ h => absurd h (by simp)
    | false =>
      simp only [Option.isSome_some, forall_const]
      cases hf : conf.unprotected || conf.routed with
      | false => exact agree_iff_of_protected hs hr hf
      | true => exact agree_iff_of_intended hs hr hf

/-- A routed network behind a bridge, with the names taken as they are. -/
def routed : NetworkConfigFam 32 := ⟨some ⟨0xac1e2000#32, 23⟩, false, true⟩

def hassio : NetworkConfig := ⟨"hassio".toList, []⟩

/-- A packet to it from `eth0` is dropped by the one backend only. -/
theorem routed_dropped : ¬ Agree ⟨(· == ·), (· == ·)⟩ ⟨false⟩ hassio routed := by
  intro h
  have hn : NftablesDrops ⟨(· == ·), (· == ·)⟩ ⟨false⟩ hassio routed ⟨0xac1e2105#32, "eth0".toList⟩ := by
    show verdict _ _ = some .drop
    decide +kernel
  exact not_iptablesDrops (.inr (.inr rfl)) ((h.same _).mpr hn)

end

end HassOS.Docker
