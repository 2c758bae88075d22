import LinkFabric.Coordination.Roster
import LinkFabric.Proofs.Numerals
import LinkFabric.Proofs.RoundTrip
import LinkFabric.Proofs.TagSets
import LinkFabric.Settings.Basic
import Mathlib.Data.Set.List
import Mathlib.Logic.Function.Basic

/-!
# Tags on their way to the leader

The tags of a node are written in a variable, as numerals between commas. On their way to the
leader they pass the reader of the variable, the canonical form of a query, the encoder and the
decoder of heartbeats, and the roster. Each of these has a limit of its own, or drops zeros of its
own accord. The form in which the reader leaves the tags passes all the others unchanged: a node
that has started can always send its heartbeat, and the leader knows it by the tags that were
written.

Main results:

* `Settings.number32_trimBlank`: which pieces of a text are tags.
* `Settings.exists_readTags_iff`, `Settings.mem_of_readTags`: which texts are lists of tags, and of
  which ones.
* `Settings.ofVariables_update`: settings that differ in the variable of tags alone.
* `Message.carries_heartbeat`, `Follower.tags_new`: tags in canonical form reach the roster.
* `Settings.configured_tags_reach_leader`: the way from the text to the leader.
-/

namespace LinkFabric

open Variables

/-! ## Steps that may fail -/

theorem mapError_eq_ok_iff {ε ε' α : Type} {x : Except ε α} {f : ε → ε'} {a : α} :
    x.mapError f = .ok a ↔ x = .ok a := by
  cases x <;> simp [Except.mapError]

theorem mapM_eq_ok_iff {ε α β : Type} {f : α → Except ε β} {xs : List α} {ys : List β} :
    xs.mapM f = .ok ys ↔ xs.map f = ys.map .ok := by
  induction xs generalizing ys with
  | nil => simp [pure, Except.pure, eq_comm]
  | cons x xs ih =>
    rw [List.mapM_cons, bind_eq_ok_iff, List.map_cons, eq_comm (a := f x :: _),
      List.map_eq_cons_iff]
    constructor
    · rintro ⟨y, hy, hrest⟩
      obtain ⟨ys', hys, heq⟩ := bind_eq_ok_iff.mp hrest
      exact ⟨y, ys', (Except.ok.inj heq).symm, hy.symm, (ih.mp hys).symm⟩
    · rintro ⟨y, ys', rfl, hy, hys⟩
      exact ⟨y, hy.symm, bind_eq_ok_iff.mpr ⟨ys', ih.mpr hys.symm, rfl⟩⟩

namespace Settings

/-! ## Pieces that are tags -/

/-- A text is read iff it writes a number of 32 bits. The bound of 64 bits, which is checked
first, refuses nothing else. -/
theorem number32_eq_ok_iff {cs : List Char} {t : Tag} :
    number32 cs = .ok t ↔ Numeral.Writes cs t.toNat := by
  have hread : ∀ n, number64 cs = .ok n ↔ Numeral.Writes cs n ∧ n ≤ UInt64.size - 1 := by
    intro n
    rw [number64, mapError_eq_ok_iff, Numeral.readPrefixed_eq_ok_iff]
  rw [number32, bind_eq_ok_iff]
  simp only [hread]
  constructor
  · rintro ⟨n, ⟨hwrites, -⟩, hword⟩
    split_ifs at hword with hlt
    obtain rfl := Except.ok.inj hword
    rwa [UInt32.toNat_ofNat_of_lt' hlt]
  · intro hwrites
    have hlt : t.toNat < UInt32.size := t.toNat_lt_size
    have hle : t.toNat ≤ UInt64.size - 1 := Nat.le_of_lt (Nat.lt_trans hlt (by decide))
    exact ⟨t.toNat, ⟨hwrites, hle⟩, by rw [if_pos hlt, UInt32.ofNat_toNat]⟩

/-- A piece of a text writes a tag: it is a numeral with white space around it. -/
def WritesTag (piece : List Char) (t : Tag) : Prop :=
  ∃ left numeral right, piece = left ++ numeral ++ right ∧
    (∀ c ∈ left, isBlank c = true) ∧ (∀ c ∈ right, isBlank c = true) ∧
    Numeral.Writes numeral t.toNat

theorem number32_trimBlank {piece : List Char} {t : Tag} :
    number32 (trimBlank piece) = .ok t ↔ WritesTag piece t := by
  rw [number32_eq_ok_iff]
  exact trimBlank_iff (P := (Numeral.Writes · t.toNat)) fun _ => Numeral.Writes.not_isBlank

/-- A text lists a tag: one of its pieces between commas writes it. -/
def Lists (cs : List Char) (t : Tag) : Prop :=
  ∃ piece ∈ cs.splitOn ',', WritesTag piece t

/-- A text is no list of tags: a piece of it that is not blank writes no tag, or there are more
tags other than zero than a query can name. -/
def Malformed (cs : List Char) : Prop :=
  (∃ piece ∈ cs.splitOn ',', (∃ c ∈ piece, isBlank c = false) ∧ ∀ t, ¬ WritesTag piece t) ∨
    ∃ many : Finset Tag, 8 < many.card ∧ ∀ t ∈ many, t ≠ 0 ∧ Lists cs t

theorem mem_pieces {cs part : List Char} :
    part ∈ pieces cs ↔
      ∃ piece ∈ cs.splitOn ',', (∃ c ∈ piece, isBlank c = false) ∧ trimBlank piece = part := by
  rw [pieces, splitOnChar_eq_splitOn, List.mem_filter, List.mem_map]
  constructor
  · rintro ⟨⟨piece, hpiece, rfl⟩, hne⟩
    exact ⟨piece, hpiece, trimBlank_ne_nil_iff.mp (by simpa using hne), rfl⟩
  · rintro ⟨piece, hpiece, hsolid, rfl⟩
    exact ⟨⟨piece, hpiece, rfl⟩, by simpa using trimBlank_ne_nil_iff.mpr hsolid⟩

/-- A piece that writes a tag is not blank. -/
theorem exists_number32_iff {cs : List Char} {t : Tag} :
    (∃ part ∈ pieces cs, number32 part = .ok t) ↔ Lists cs t := by
  constructor
  · rintro ⟨part, hpart, ht⟩
    obtain ⟨piece, hpiece, -, rfl⟩ := mem_pieces.mp hpart
    exact ⟨piece, hpiece, number32_trimBlank.mp ht⟩
  · rintro ⟨piece, hpiece, hwrites⟩
    have ht := number32_trimBlank.mpr hwrites
    have hsolid := trimBlank_ne_nil_iff.mp (number32_eq_ok_iff.mp ht).ne_nil
    exact ⟨trimBlank piece, mem_pieces.mpr ⟨piece, hpiece, hsolid, rfl⟩, ht⟩

/-! ## Lists of tags -/

theorem readTags_eq_ok_iff {cs : List Char} {tags : List Tag} :
    readTags cs = .ok tags ↔ ∃ written query, (pieces cs).map number32 = written.map .ok ∧
      TagQuery.ofTags written = .ok query ∧ query.tags = tags := by
  rw [readTags, bind_eq_ok_iff]
  simp only [mapM_eq_ok_iff, exists_and_left]
  refine exists_congr fun written => and_congr_right fun _ => ?_
  cases TagQuery.ofTags written <;> simp

/-- The numbers that are read are the listed ones. -/
theorem mem_iff_lists {cs : List Char} {written : List Tag}
    (hread : (pieces cs).map number32 = written.map .ok) {t : Tag} :
    t ∈ written ↔ Lists cs t := by
  rw [← exists_number32_iff, ← List.mem_map, hread]
  simp

theorem mem_of_readTags {cs : List Char} {tags : List Tag} (h : readTags cs = .ok tags) {t : Tag} :
    t ∈ tags ↔ Lists cs t ∧ t ≠ 0 := by
  obtain ⟨written, query, hread, hquery, rfl⟩ := readTags_eq_ok_iff.mp h
  rw [TagQuery.mem_of_ofTags hquery, mem_iff_lists hread]

/-- All pieces that are not blank are numbers iff each of them writes a tag. -/
theorem exists_numbers_iff {cs : List Char} :
    (∃ written : List Tag, (pieces cs).map number32 = written.map .ok) ↔
      ∀ piece ∈ cs.splitOn ',', (∃ c ∈ piece, isBlank c = false) → ∃ t, WritesTag piece t := by
  constructor
  · rintro ⟨written, hread⟩ piece hpiece hsolid
    have hpart := mem_pieces.mpr ⟨piece, hpiece, hsolid, rfl⟩
    have hmem : number32 (trimBlank piece) ∈ written.map .ok :=
      hread ▸ List.mem_map_of_mem hpart
    obtain ⟨t, -, ht⟩ := List.mem_map.mp hmem
    exact ⟨t, number32_trimBlank.mp ht.symm⟩
  · intro hall
    have hrange : (pieces cs).map number32 ∈ Set.range (List.map Except.ok) := by
      rw [Set.range_list_map]
      intro outcome houtcome
      obtain ⟨part, hpart, rfl⟩ := List.mem_map.mp houtcome
      obtain ⟨piece, hpiece, hsolid, rfl⟩ := mem_pieces.mp hpart
      obtain ⟨t, ht⟩ := hall piece hpiece hsolid
      exact ⟨t, (number32_trimBlank.mpr ht).symm⟩
    obtain ⟨written, hwritten⟩ := hrange
    exact ⟨written, hwritten.symm⟩

/-- A text is read unless it is malformed. -/
theorem exists_readTags_iff {cs : List Char} :
    (∃ tags, readTags cs = .ok tags) ↔ ¬ Malformed cs := by
  constructor
  · rintro ⟨tags, htags⟩ hbad
    obtain ⟨written, query, hread, hquery, rfl⟩ := readTags_eq_ok_iff.mp htags
    rcases hbad with ⟨piece, hpiece, hsolid, hnone⟩ | ⟨many, hcard, hmany⟩
    · obtain ⟨t, ht⟩ := exists_numbers_iff.mp ⟨written, hread⟩ piece hpiece hsolid
      exact hnone t ht
    · have hsub : many ⊆ query.tags.toFinset := by
        intro t ht
        obtain ⟨hne, hlists⟩ := hmany t ht
        exact List.mem_toFinset.mpr ((mem_of_readTags htags).mpr ⟨hlists, hne⟩)
      have hfew : many.card ≤ 8 :=
        calc many.card ≤ query.tags.toFinset.card := Finset.card_le_card hsub
          _ ≤ query.tags.length := List.toFinset_card_le _
          _ ≤ 8 := query.length_le
      omega
  · intro hgood
    have hall : ∀ piece ∈ cs.splitOn ',', (∃ c ∈ piece, isBlank c = false) →
        ∃ t, WritesTag piece t := by
      intro piece hpiece hsolid
      by_contra hnone
      exact hgood (.inl ⟨piece, hpiece, hsolid, fun t ht => hnone ⟨t, ht⟩⟩)
    obtain ⟨written, hread⟩ := exists_numbers_iff.mpr hall
    have hfew : (TagQuery.canonical written).length ≤ maxQueryTags := by
      by_contra hmany
      refine hgood (.inr ⟨written.toFinset.erase 0, ?_, fun t ht => ?_⟩)
      · rw [← TagQuery.length_canonical]
        exact Nat.not_le.mp hmany
      · rw [Finset.mem_erase, List.mem_toFinset, mem_iff_lists hread] at ht
        exact ht
    obtain ⟨query, hquery⟩ := TagQuery.exists_ofTags hfew
    exact ⟨query.tags, readTags_eq_ok_iff.mpr ⟨written, query, hread, hquery, rfl⟩⟩

/-! ## The variable of tags -/

/-- The text of the variable of tags. Without it there are no tags, as with an empty text. -/
def tagText (vars : Variables) : List Char := ((vars "HIVELINK_TAGS").getD "").toList

theorem readRaw_tags (vars : Variables) :
    (vars.readRaw "HIVELINK_TAGS" [] fun raw => readTags raw.toList) =
      (readTags (tagText vars)).mapError fun fault => ⟨"HIVELINK_TAGS", fault⟩ := by
  rw [readRaw, tagText]
  cases vars "HIVELINK_TAGS" with
  | none => rfl
  | some raw => rfl

theorem readRaw_update_of_ne {α : Type} (vars : Variables) {name other : String}
    (hne : name ≠ other) (text : Option String) (absent : α)
    (read : String → Except SettingFault α) :
    readRaw (Function.update vars other text) name absent read =
      vars.readRaw name absent read := by
  rw [readRaw, readRaw, Function.update_of_ne hne]

/-- The variable of tags has no bearing on the other settings. Where these can be read, the tags
alone decide. -/
theorem ofVariables_update {fallback : DeviceId} {vars : Variables} {s : Settings}
    (h : ofVariables fallback vars = .ok s) (text : Option String) :
    ofVariables fallback (Function.update vars "HIVELINK_TAGS" text) =
      ((readTags (tagText (Function.update vars "HIVELINK_TAGS" text))).mapError
        fun fault => ⟨"HIVELINK_TAGS", fault⟩).map fun tags => { s with tags } := by
  have hnone : (default fallback).tags = [] := rfl
  simp only [ofVariables, readTrimmed, readNat, readWord16, readSize, readSpan, readAddress,
    readList, bind_eq_ok_iff] at h ⊢
  obtain ⟨device, _, priority, _, window, _, leaderTimeout, _, beaconInterval, _, startupBeacons,
    _, tags, -, maxLinks, _, maxContributors, _, realm, _, serviceFlags, _, bindAddress, _,
    broadcastAddress, _, electionPort, _, linkPort, _, managerPort, _, advertInterval, _,
    heartbeatInterval, _, coordinationInterval, _, bindingStale, _, maxFollowers, _, bindChunk, _,
    links, _, keys, _, hs⟩ := h
  obtain rfl := Except.ok.inj hs
  -- All reads but that of the tags are the ones that have succeeded.
  simp (disch := decide) only [readRaw_update_of_ne, readRaw_tags, *]
  cases readTags (tagText (Function.update vars "HIVELINK_TAGS" text)) with
  | error fault => rfl
  | ok tags => rfl

theorem ofVariables_eq_of_update {fallback : DeviceId} {vars : Variables} {s : Settings}
    {text : Option String}
    (h : ofVariables fallback (Function.update vars "HIVELINK_TAGS" text) = .ok s) :
    ofVariables fallback vars =
      ((readTags (tagText vars)).mapError fun fault => ⟨"HIVELINK_TAGS", fault⟩).map
        fun tags => { s with tags } := by
  have hback := ofVariables_update h (vars "HIVELINK_TAGS")
  rwa [Function.update_idem, Function.update_eq_self] at hback

theorem readTags_of_ofVariables {fallback : DeviceId} {vars : Variables} {s : Settings}
    (h : ofVariables fallback vars = .ok s) : readTags (tagText vars) = .ok s.tags := by
  have hself := h
  rw [← Function.update_eq_self "HIVELINK_TAGS" vars] at hself
  rw [ofVariables_eq_of_update hself] at h
  obtain ⟨tags, htags, hs⟩ := map_eq_ok_iff.mp h
  rw [mapError_eq_ok_iff.mp htags, ← hs]

end Settings

/-! ## From the node to the leader -/

theorem TagQuery.filter_tags (q : TagQuery) : q.tags.filter (· ≠ 0) = q.tags := by
  refine List.filter_eq_self.mpr fun t ht => decide_eq_true ?_
  rintro rfl
  exact q.zero_not_mem ht

/-- A heartbeat with tags in canonical form can be sent, and says the same to its receivers. -/
theorem Message.carries_heartbeat (sender : Station) (flags : UInt32) (q : TagQuery) :
    ∃ bytes, encodeHeartbeat sender ⟨flags, q.tags⟩ = .ok bytes ∧
      Carries sender bytes (.heartbeat ⟨flags, q.tags⟩) := by
  have hcarries := carries_encodeHeartbeat sender (h := ⟨flags, q.tags⟩) q.length_le
  rwa [q.filter_tags] at hcarries

theorem Follower.tags_new (address : Address) (q : TagQuery) (flags : UInt32) :
    (Follower.new address q.tags flags).tags = q.tags := by
  rw [Follower.new, q.filter_tags, List.take_of_length_le q.length_le]

theorem Roster.find?_of_heartbeat {r r' : Roster} {address : Address} {h : Heartbeat}
    {isNew : Bool} (htaken : r.heartbeat address h = .ok (r', isNew)) :
    r'.find? address = some (.new address h.tags h.serviceFlags) := by
  simp only [heartbeat] at htaken
  split_ifs at htaken
  all_goals
    obtain ⟨rfl, -⟩ := Prod.mk.inj (Except.ok.inj htaken)
    exact SortedMap.find?_insert_self _ _ _

namespace Settings

/-- The way of tags to the leader. Settings that were read have their tags in canonical form, and
these are the listed ones other than zero. Their heartbeat can be sent, the leader reads it, and
once it takes it in, it selects the node by the tags in the text. With the other variables in
order, the text of the tags is refused iff it is malformed. -/
theorem configured_tags_reach_leader (fallback : DeviceId) (vars : Variables) :
    (∀ s, ofVariables fallback vars = .ok s →
      ¬ Malformed (tagText vars) ∧
      s.tags.Pairwise (· > ·) ∧ 0 ∉ s.tags ∧ s.tags.length ≤ 8 ∧
      (∀ t, t ∈ s.tags ↔ Lists (tagText vars) t ∧ t ≠ 0) ∧
      ∀ (sender : Station) (flags : UInt32), ∃ bytes,
        Message.encodeHeartbeat sender ⟨flags, s.tags⟩ = .ok bytes ∧
        ∀ leader : Station, leader.device ≠ sender.device → leader.realm = sender.realm →
          ∃ header h, Message.decode leader bytes = .ok (header, .heartbeat h) ∧
            ∀ (r r' : Roster) (address : Address) (isNew : Bool),
              r.heartbeat address h = .ok (r', isNew) →
              ∃ f, r'.find? address = some f ∧ f.tags = s.tags ∧
                ∀ wanted query, TagQuery.ofTags wanted = .ok query →
                  (query.selects f.tags = true ↔
                    ∀ t ∈ wanted, t ≠ 0 → Lists (tagText vars) t)) ∧
    ∀ s₀, ofVariables fallback (Function.update vars "HIVELINK_TAGS" none) = .ok s₀ →
      ((∃ fault, ofVariables fallback vars = .error ⟨"HIVELINK_TAGS", fault⟩) ↔
        Malformed (tagText vars)) ∧
      (¬ Malformed (tagText vars) → ∃ tags, ofVariables fallback vars = .ok { s₀ with tags }) := by
  constructor
  · intro s hs
    have hread := readTags_of_ofVariables hs
    obtain ⟨_, q, _, _, hq⟩ := readTags_eq_ok_iff.mp hread
    refine ⟨exists_readTags_iff.mp ⟨s.tags, hread⟩, ?_, ?_, ?_, fun t => mem_of_readTags hread,
      fun sender flags => ?_⟩
    · exact hq ▸ q.descending
    · exact hq ▸ q.zero_not_mem
    · exact hq ▸ q.length_le
    · obtain ⟨bytes, hbytes, hcarries⟩ := Message.carries_heartbeat sender flags q
      refine ⟨bytes, hq ▸ hbytes, fun leader hother hrealm => ?_⟩
      obtain ⟨header, hdecode, -⟩ := hcarries.accepted leader hother hrealm
      refine ⟨header, _, hdecode, fun r r' address isNew htaken => ?_⟩
      have hf := Roster.find?_of_heartbeat htaken
      refine ⟨_, hf, (Follower.tags_new address q flags).trans hq, fun wanted query hquery => ?_⟩
      rw [TagQuery.selects_iff_of_ofTags hquery, Follower.tags_new, hq]
      refine forall₂_congr fun t _ => forall_congr' fun hne => ?_
      rw [mem_of_readTags hread, and_iff_left hne]
  · intro s₀ hs₀
    rw [ofVariables_eq_of_update hs₀]
    cases hread : readTags (tagText vars) with
    | error fault =>
      have hbad : Malformed (tagText vars) := by
        by_contra hgood
        obtain ⟨tags, htags⟩ := exists_readTags_iff.mpr hgood
        rw [hread] at htags
        cases htags
      exact ⟨iff_of_true ⟨fault, rfl⟩ hbad, fun hgood => absurd hbad hgood⟩
    | ok tags =>
      have hgood := exists_readTags_iff.mp ⟨tags, hread⟩
      refine ⟨iff_of_false ?_ hgood, fun _ => ⟨tags, rfl⟩⟩
      rintro ⟨fault, hfault⟩
      cases hfault

/-- Three tags in a text with a repetition, a zero and a blank piece: the leader selects the node
for two of them. A piece that is no numeral is refused. -/
theorem three_listed_tags_reach_leader :
    (∃ s bytes header h r f query,
      ofVariables 5 (Function.update (fun _ => none) "HIVELINK_TAGS"
        (some " 7, 0x1F ,,0X+2,7, 0")) = .ok s ∧ s.tags = [31, 7, 2] ∧
      Message.encodeHeartbeat ⟨5, 0⟩ ⟨0, s.tags⟩ = .ok bytes ∧
      Message.decode ⟨9, 0⟩ bytes = .ok (header, .heartbeat h) ∧
      (Roster.empty 1).heartbeat (Address.ofOctets 10 0 0 5) h = .ok (r, true) ∧
      r.find? (Address.ofOctets 10 0 0 5) = some f ∧
      TagQuery.ofTags [7, 0, 31] = .ok query ∧ query.selects f.tags = true) ∧
    ∃ fault, ofVariables 5 (Function.update (fun _ => none) "HIVELINK_TAGS" (some "1,zwei")) =
      .error ⟨"HIVELINK_TAGS", fault⟩ := by
  have hempty : ofVariables 5 (fun _ => none) = .ok (default 5) := rfl
  constructor
  · have hread : readTags (tagText (Function.update (fun _ => none) "HIVELINK_TAGS"
        (some " 7, 0x1F ,,0X+2,7, 0"))) = .ok [31, 7, 2] := by
      decide +kernel
    have hs := ofVariables_update hempty (some " 7, 0x1F ,,0X+2,7, 0")
    rw [hread] at hs
    obtain ⟨-, -, -, -, hmem, hsend⟩ := (configured_tags_reach_leader 5 _).1 _ hs
    obtain ⟨bytes, hbytes, hreceive⟩ := hsend ⟨5, 0⟩ 0
    obtain ⟨header, h, hdecode, htaken⟩ := hreceive ⟨9, 0⟩ (by decide) rfl
    obtain ⟨f, hf, -, hselects⟩ := htaken (.empty 1) _ (Address.ofOctets 10 0 0 5) true rfl
    obtain ⟨query, hquery⟩ : ∃ query, TagQuery.ofTags [7, 0, 31] = .ok query := ⟨_, rfl⟩
    refine ⟨_, bytes, header, h, _, f, query, hs, rfl, hbytes, hdecode, rfl, hf, hquery,
      (hselects _ query hquery).mpr fun t ht hne => ((hmem t).mp ?_).1⟩
    simp only [List.mem_cons, List.not_mem_nil, or_false] at ht
    rcases ht with rfl | rfl | rfl
    · exact List.mem_cons_of_mem _ List.mem_cons_self
    · exact absurd rfl hne
    · exact List.mem_cons_self
  · have hrest : ofVariables 5 (Function.update (Function.update (fun _ => none) "HIVELINK_TAGS"
        (some "1,zwei")) "HIVELINK_TAGS" none) = .ok (default 5) := by
      rw [Function.update_idem, Function.update_eq_self]
      exact hempty
    refine ((configured_tags_reach_leader 5 _).2 _ hrest).1.mpr (.inl ⟨"zwei".toList, ?_⟩)
    refine ⟨by decide +kernel, ⟨'z', by decide, by decide⟩, fun t ht => ?_⟩
    have hnumber := number32_trimBlank.mpr ht
    cases hnumber

end Settings

end LinkFabric
