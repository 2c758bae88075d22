import LinkFabric.Proofs.ConfiguredTags

/-!
# Numbers among the settings

Eleven settings are plain numbers of machine size: limits, and intervals in milliseconds. They are
all read in the same way, each from a variable of its own, and none of the numbers that fit is
refused. So such a setting says what its variable says, and one of these variables can be given
any number without a bearing on the rest.

Main results:

* `Variables.readNat_eq_ok_iff`: which number a variable gives.
* `Quantity.says_of_ofVariables`: a setting is what its variable says.
* `Quantity.ofVariables_update`: another number in a variable is another number in the setting.
-/

namespace LinkFabric

open Variables

/-- A text denotes a number: it is a decimal numeral with white space around it. -/
def Denotes (text : String) (n : Nat) : Prop :=
  ∃ left numeral right, text.toList = left ++ numeral ++ right ∧
    (∀ c ∈ left, isBlank c = true) ∧ (∀ c ∈ right, isBlank c = true) ∧
    Numeral.Spells 10 numeral n

theorem read_trimBlank_eq_ok_iff {text : String} {bound n : Nat} :
    Numeral.read 10 bound (trimBlank text.toList) = .ok n ↔ Denotes text n ∧ n ≤ bound := by
  rw [Numeral.read_eq_ok_iff (by decide) (by decide)]
  refine and_congr_left fun _ => ?_
  exact trimBlank_iff (P := (Numeral.Spells 10 · n)) fun _ hspells =>
    hspells.not_isBlank (by decide)

theorem Denotes.unique {text : String} {n m : Nat} (hn : Denotes text n) (hm : Denotes text m) :
    n = m := by
  have hread := read_trimBlank_eq_ok_iff.mpr ⟨hn, Nat.le_max_left n m⟩
  have hread' := read_trimBlank_eq_ok_iff.mpr ⟨hm, Nat.le_max_right n m⟩
  exact Except.ok.inj (hread.symm.trans hread')

theorem exists_denotes (n : Nat) : ∃ text, Denotes text n := by
  obtain ⟨cs, hspells⟩ := Numeral.exists_spells n
  refine ⟨String.ofList cs, [], cs, [], by simp, ?_, ?_, hspells⟩ <;>
    exact fun c hc => absurd hc List.not_mem_nil

/-- A variable gives its default if it is not set, and else the number that its text denotes. -/
theorem Variables.readNat_eq_ok_iff {vars : Variables} {name : String} {absent bound n : Nat} :
    vars.readNat name absent bound = .ok n ↔
      vars name = none ∧ n = absent ∨
        ∃ text, vars name = some text ∧ Denotes text n ∧ n ≤ bound := by
  rw [readNat, readTrimmed, readRaw]
  cases vars name with
  | none => simp [eq_comm]
  | some text =>
    simp only [mapError_eq_ok_iff, read_trimBlank_eq_ok_iff]
    simp

/-- The settings that are plain numbers of machine size. -/
inductive Quantity where
  | electionWindow
  | leaderTimeout
  | beaconInterval
  | maxLinks
  | maxContributors
  | advertInterval
  | heartbeatInterval
  | coordinationInterval
  | bindingStale
  | maxFollowers
  | bindChunk

namespace Quantity

/-- The variable of a number. -/
def name : Quantity → String
  | electionWindow => "HIVELINK_ELECTION_WINDOW_MS"
  | leaderTimeout => "HIVELINK_LEADER_TIMEOUT_MS"
  | beaconInterval => "HIVELINK_BEACON_INTERVAL_MS"
  | maxLinks => "HIVELINK_MAX_LINKS"
  | maxContributors => "HIVELINK_MAX_NODES_PER_LINK"
  | advertInterval => "HIVELINK_ADVERT_INTERVAL_MS"
  | heartbeatInterval => "HIVELINK_HEARTBEAT_INTERVAL_MS"
  | coordinationInterval => "HIVELINK_COORDINATION_INTERVAL_MS"
  | bindingStale => "HIVELINK_BINDING_STALE_MS"
  | maxFollowers => "HIVELINK_MAX_FOLLOWERS"
  | bindChunk => "HIVELINK_BIND_CHUNK"

/-- The settings with another number. -/
def put (q : Quantity) (n : Nat) (s : Settings) : Settings :=
  match q with
  | electionWindow => { s with election := { s.election with window := Span.ofMs n } }
  | leaderTimeout => { s with election := { s.election with leaderTimeout := Span.ofMs n } }
  | beaconInterval => { s with election := { s.election with beaconInterval := Span.ofMs n } }
  | maxLinks => { s with limits := { s.limits with maxLinks := n } }
  | maxContributors => { s with limits := { s.limits with maxContributors := n } }
  | advertInterval => { s with advertInterval := Span.ofMs n }
  | heartbeatInterval => { s with heartbeatInterval := Span.ofMs n }
  | coordinationInterval => { s with coordinationInterval := Span.ofMs n }
  | bindingStale => { s with bindingStale := Span.ofMs n }
  | maxFollowers => { s with maxFollowers := n }
  | bindChunk => { s with bindChunk := n }

/-- The number of some settings. -/
def value (q : Quantity) (s : Settings) : Nat :=
  match q with
  | electionWindow => s.election.window.toMs
  | leaderTimeout => s.election.leaderTimeout.toMs
  | beaconInterval => s.election.beaconInterval.toMs
  | maxLinks => s.limits.maxLinks
  | maxContributors => s.limits.maxContributors
  | advertInterval => s.advertInterval.toMs
  | heartbeatInterval => s.heartbeatInterval.toMs
  | coordinationInterval => s.coordinationInterval.toMs
  | bindingStale => s.bindingStale.toMs
  | maxFollowers => s.maxFollowers
  | bindChunk => s.bindChunk

theorem value_put (q : Quantity) (n : Nat) (s : Settings) : q.value (q.put n s) = n := by
  have hspan : (Span.ofMs n).toMs = n := Nat.mul_div_cancel_left n (by decide)
  cases q <;> simp only [value, put, hspan]

/-- The number that stands for a variable that is not set, whatever the device is. -/
def absent (q : Quantity) : Nat := q.value (Settings.default 0)

theorem absent_pos (q : Quantity) : 0 < q.absent := by
  cases q <;> decide

theorem absent_lt_size (q : Quantity) : q.absent < UInt64.size := by
  cases q <;> decide

/-- The number that variables give. -/
def Says (vars : Variables) (q : Quantity) (n : Nat) : Prop :=
  vars q.name = none ∧ n = q.absent ∨ ∃ text, vars q.name = some text ∧ Denotes text n

variable {fallback : DeviceId} {vars : Variables} {s : Settings}

theorem readNat_of_ofVariables (q : Quantity) (h : Settings.ofVariables fallback vars = .ok s) :
    ∃ n, vars.readNat q.name q.absent (UInt64.size - 1) = .ok n ∧ q.put n s = s := by
  simp only [Settings.ofVariables, Settings.default, Settings.new, readSize, readSpan,
    bind_eq_ok_iff, map_eq_ok_iff] at h
  obtain ⟨_, _, _, _, _, ⟨_, hwindow, rfl⟩, _, ⟨_, htimeout, rfl⟩, _, ⟨_, hbeacon, rfl⟩, _, _, _, _,
    _, hlinks, _, hnodes, _, _, _, _, _, _, _, _, _, _, _, _, _, _, _, ⟨_, hadvert, rfl⟩, _,
    ⟨_, hheartbeat, rfl⟩, _, ⟨_, hcoordination, rfl⟩, _, ⟨_, hstale, rfl⟩, _, hfollowers, _, hchunk,
    _, _, _, _, hs⟩ := h
  obtain rfl := Except.ok.inj hs
  cases q with
  | electionWindow => exact ⟨_, hwindow, rfl⟩
  | leaderTimeout => exact ⟨_, htimeout, rfl⟩
  | beaconInterval => exact ⟨_, hbeacon, rfl⟩
  | maxLinks => exact ⟨_, hlinks, rfl⟩
  | maxContributors => exact ⟨_, hnodes, rfl⟩
  | advertInterval => exact ⟨_, hadvert, rfl⟩
  | heartbeatInterval => exact ⟨_, hheartbeat, rfl⟩
  | coordinationInterval => exact ⟨_, hcoordination, rfl⟩
  | bindingStale => exact ⟨_, hstale, rfl⟩
  | maxFollowers => exact ⟨_, hfollowers, rfl⟩
  | bindChunk => exact ⟨_, hchunk, rfl⟩

/-- Each of the numbers is what its variable says, and fits. -/
theorem says_of_ofVariables (q : Quantity) (h : Settings.ofVariables fallback vars = .ok s) :
    Says vars q (q.value s) ∧ q.value s < UInt64.size ∧ q.put (q.value s) s = s := by
  obtain ⟨n, hread, hput⟩ := q.readNat_of_ofVariables h
  have hvalue : q.value s = n := by
    rw [← hput, value_put]
  rw [hvalue]
  rcases readNat_eq_ok_iff.mp hread with ⟨hunset, rfl⟩ | ⟨text, htext, hdenotes, hn⟩
  · exact ⟨.inl ⟨hunset, rfl⟩, q.absent_lt_size, hput⟩
  · exact ⟨.inr ⟨text, htext, hdenotes⟩, Nat.lt_of_le_pred (by decide) hn, hput⟩

/-- The variable of a number can be given any number that fits, and nothing else changes. -/
theorem ofVariables_update (q : Quantity) (h : Settings.ofVariables fallback vars = .ok s)
    {text : String} {n : Nat} (htext : Denotes text n) (hn : n < UInt64.size) :
    Settings.ofVariables fallback (Function.update vars q.name (some text)) = .ok (q.put n s) := by
  have hread : Numeral.read 10 (UInt64.size - 1) (trimBlank text.toList) = .ok n :=
    read_trimBlank_eq_ok_iff.mpr ⟨htext, Nat.le_sub_one_of_lt hn⟩
  have hself : ∀ name absent,
      readRaw (Function.update vars name (some text)) name absent (fun raw =>
        (Numeral.read 10 (UInt64.size - 1) (trimBlank raw.toList)).mapError .numeral) = .ok n := by
    intro name absent
    simp only [readRaw, Function.update_self, hread]
    rfl
  simp only [Settings.ofVariables, readTrimmed, readNat, readWord16, readSize, readSpan,
    readAddress, readList] at h ⊢
  simp only [bind_eq_ok_iff] at h
  obtain ⟨device, _, priority, _, window, _, leaderTimeout, _, beaconInterval, _, startupBeacons,
    _, tags, _, maxLinks, _, maxContributors, _, realm, _, serviceFlags, _, bindAddress, _,
    broadcastAddress, _, electionPort, _, linkPort, _, managerPort, _, advertInterval, _,
    heartbeatInterval, _, coordinationInterval, _, bindingStale, _, maxFollowers, _, bindChunk, _,
    links, _, keys, _, hs⟩ := h
  obtain rfl := Except.ok.inj hs
  -- All reads but the one of the variable are those that have succeeded.
  cases q <;> simp (disch := decide) only [name, Settings.readRaw_update_of_ne, *] <;> rfl

end Quantity

end LinkFabric
