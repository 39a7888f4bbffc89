import TapeMachine.Proofs.Timeline

/-!
# What operations may do to sinks

Sinks are reached through writes and flushes only, so a sink never forgets what it has received.
This module says once what an operation on an output may do: which sinks it can reach, that the ways
to the sinks stay, and which faults can come of it.

The module introduces:

* `Sink.Precedes`: a sink at an earlier and a later time;
* `Sinks.LeadsTo`: writes and flushes lead from some sinks to others;
* `Channel.Sequel`, `Output.Sequel`: what an operation on a channel or an output may do.
-/

namespace TapeMachine

/-! ### Sinks -/

namespace Sink

/-- All that a sink is ever allowed. -/
def allowances (sink : Sink) : List Allowance :=
  ⟨sink.room, sink.fault⟩ :: sink.renewals

/-- All that a sink reports at flushes. -/
def flushReports (sink : Sink) : List (Option StreamFault) :=
  sink.flushFault :: sink.flushFaults

/-- A sink at an earlier and a later time: it has seen more since, and neither gets nor reports what
it did not before. -/
structure Precedes (before after : Sink) : Prop where
  /-- An allowance is one that the sink had before, with some of its room used up. -/
  allowances : ∀ allowance ∈ after.allowances, ∃ earlier ∈ before.allowances,
    allowance.fault = earlier.fault ∧ (earlier.room = none → allowance.room = none)
  /-- It reports nothing else when it is flushed. -/
  flushReports : after.flushReports ⊆ before.flushReports
  /-- Nothing it has seen is forgotten. -/
  events : before.events <:+ after.events

variable {before after later : Sink}

/-- A sink precedes itself. -/
theorem Precedes.refl (sink : Sink) : sink.Precedes sink :=
  ⟨fun allowance h => ⟨allowance, h, rfl, id⟩, List.Subset.refl _, List.suffix_rfl⟩

/-- `Precedes` is transitive. -/
theorem Precedes.trans (h : before.Precedes after) (h' : after.Precedes later) :
    before.Precedes later where
  allowances := by
    intro allowance hlater
    obtain ⟨middle, hmiddle, hfault, hroom⟩ := h'.allowances allowance hlater
    obtain ⟨earlier, hearlier, hfault', hroom'⟩ := h.allowances middle hmiddle
    exact ⟨earlier, hearlier, hfault.trans hfault', fun hnone => hroom (hroom' hnone)⟩
  flushReports := List.Subset.trans h'.flushReports h.flushReports
  events := h.events.trans h'.events

/-- What a sink has in common with the one before it, as long as only `room` and `events` differ. -/
private theorem precedes_of_room {sink : Sink} {room : Option Nat} {events : List SinkEvent}
    (hroom : sink.room = none → room = none) (hevents : sink.events <:+ events) :
    sink.Precedes { sink with room, events } where
  allowances := by
    intro allowance h
    rcases List.mem_cons.mp h with rfl | h
    · exact ⟨_, List.mem_cons_self .., rfl, hroom⟩
    · exact ⟨allowance, List.mem_cons_of_mem _ h, rfl, id⟩
  flushReports := List.Subset.refl _
  events := hevents

/-- A sink that is full gets what it is allowed next, or nothing more. -/
theorem precedes_renew {sink : Sink} {room : Nat} (hroom : sink.room = some room) :
    sink.Precedes sink.renew := by
  unfold renew
  split
  · exact precedes_of_room (fun hnone => by cases hroom.symm.trans hnone) List.suffix_rfl
  · next next fault rest hrenewals =>
    refine ⟨fun allowance h => ⟨allowance, List.mem_cons_of_mem _ ?_, rfl, id⟩,
      List.Subset.refl _, List.suffix_rfl⟩
    rw [hrenewals]
    exact h

/-- `write` leads to a later time. -/
theorem precedes_write (sink : Sink) (bytes : Bytes) : sink.Precedes (sink.write bytes).2 := by
  unfold write
  split
  · next hroom => exact precedes_of_room id (List.suffix_cons _ _)
  · next room hroom =>
    split
    · exact precedes_of_room (fun hnone => by cases hroom.symm.trans hnone) (List.suffix_cons _ _)
    · have hevents : sink.renew.events = sink.events := by
        unfold renew
        split <;> rfl
      refine (precedes_renew hroom).trans (precedes_of_room id ?_)
      rw [hevents]
      split
      · exact List.suffix_rfl
      · exact List.suffix_cons _ _

/-- `flush` leads to a later time. -/
theorem precedes_flush (sink : Sink) : sink.Precedes sink.flush.2 := by
  unfold flush
  split
  · exact precedes_of_room id (List.suffix_cons _ _)
  · next fault rest hfaults =>
    refine ⟨fun allowance h => ⟨allowance, h, rfl, id⟩, ?_, List.suffix_cons _ _⟩
    rw [flushReports, flushReports, hfaults]
    exact List.cons_subset_cons _ (List.subset_cons_self ..)

/-- What a sink had received stands in front of what it has received later. -/
theorem Precedes.received (h : before.Precedes after) : before.received <+: after.received := by
  obtain ⟨since, hsince⟩ := h.events
  rw [Sink.received, Sink.received, ← hsince, List.reverse_append, List.flatMap_append]
  exact List.prefix_append _ _

/-- Whether a sink reports `fault` at times. -/
def MayReport (sink : Sink) (fault : StreamFault) : Prop :=
  (∃ allowance ∈ sink.allowances, allowance.fault = some fault) ∨ some fault ∈ sink.flushReports

/-- A sink that reports a fault at a later time may report it before, too. -/
theorem Precedes.mayReport (h : before.Precedes after) {fault : StreamFault}
    (hafter : after.MayReport fault) : before.MayReport fault := by
  rcases hafter with ⟨allowance, hallowance, hfault⟩ | hflush
  · obtain ⟨earlier, hearlier, heq, -⟩ := h.allowances allowance hallowance
    exact Or.inl ⟨earlier, hearlier, heq.symm.trans hfault⟩
  · exact Or.inr (h.flushReports hflush)

/-- A fault of a write is one that the sink may report. -/
theorem mayReport_of_write {sink : Sink} {bytes : Bytes} {fault : StreamFault}
    (h : (sink.write bytes).1.fault = some fault) : sink.MayReport fault := by
  unfold write at h
  split at h
  · cases h
  · split at h
    · cases h
    · exact Or.inl ⟨_, List.mem_cons_self .., h⟩

/-- A fault of a flush is one that the sink may report. -/
theorem mayReport_of_flush {sink : Sink} {fault : StreamFault}
    (h : sink.flush.1 = some fault) : sink.MayReport fault := by
  refine Or.inr ?_
  unfold flush at h
  split at h
  · exact List.mem_cons.mpr (Or.inl h.symm)
  · next first rest hfaults =>
    rw [flushReports, hfaults]
    exact List.mem_cons_of_mem _ (List.mem_cons.mpr (Or.inl h.symm))

end Sink

namespace Sinks

/-- A flush reaches the sink at its position and no other one. -/
theorem flush_getElem? (i j : Nat) : ∀ sinks : Sinks,
    (sinks.flush i).2[j]? =
      if j = i then sinks[i]?.map fun sink => sink.flush.2 else sinks[j]? := by
  induction i generalizing j with
  | zero =>
    intro sinks
    cases sinks with
    | nil => simp [flush]
    | cons sink rest => cases j <;> simp [flush]
  | succ i ih =>
    intro sinks
    cases sinks with
    | nil => simp [flush]
    | cons sink rest => cases j <;> simp [flush, ih]

/-- The sink at a position replies to a write. -/
theorem write_reply {i : Nat} {sink : Sink} (bytes : Bytes) : ∀ {sinks : Sinks},
    sinks[i]? = some sink → (sinks.write i bytes).1 = (sink.write bytes).1 := by
  induction i with
  | zero =>
    intro sinks h
    cases sinks with
    | nil => simp at h
    | cons first rest =>
      rw [List.getElem?_cons_zero, Option.some.injEq] at h
      rw [write, h]
  | succ i ih =>
    intro sinks h
    cases sinks with
    | nil => simp at h
    | cons first rest => exact ih (List.getElem?_cons_succ ▸ h)

/-- A fault of a write is the one that the sink at the position reports. -/
theorem mayReport_of_write {i : Nat} {bytes : Bytes} {fault : StreamFault} {sinks : Sinks}
    (h : (sinks.write i bytes).1.fault = some fault) :
    ∃ sink, sinks[i]? = some sink ∧ sink.MayReport fault := by
  cases hsink : sinks[i]? with
  | none =>
    have hroom : sinks.Unlimited i := fun sink h => nomatch hsink.symm.trans h
    rw [write_eq hroom] at h
    cases h
  | some sink =>
    rw [write_reply bytes hsink] at h
    exact ⟨sink, rfl, Sink.mayReport_of_write h⟩

/-- A fault of a flush is the one that the sink at the position reports. -/
theorem mayReport_of_flush {i : Nat} {fault : StreamFault} : ∀ {sinks : Sinks},
    (sinks.flush i).1 = some fault → ∃ sink, sinks[i]? = some sink ∧ sink.MayReport fault := by
  induction i with
  | zero =>
    intro sinks h
    cases sinks with
    | nil => cases h
    | cons sink rest => exact ⟨sink, rfl, Sink.mayReport_of_flush h⟩
  | succ i ih =>
    intro sinks h
    cases sinks with
    | nil => cases h
    | cons first rest =>
      obtain ⟨sink, hsink, hreport⟩ := ih h
      exact ⟨sink, by rw [List.getElem?_cons_succ, hsink], hreport⟩

/-- Writes and flushes lead from some sinks to others; they reach sinks at some positions only. -/
inductive LeadsTo (reached : Nat → Prop) (before : Sinks) : Sinks → Prop
  /-- Nothing is done. -/
  | refl : LeadsTo reached before before
  /-- One more write. -/
  | write {after : Sinks} {i : Nat} (h : LeadsTo reached before after) (hi : reached i)
      (bytes : Bytes) : LeadsTo reached before (after.write i bytes).2
  /-- One more flush. -/
  | flush {after : Sinks} {i : Nat} (h : LeadsTo reached before after) (hi : reached i) :
      LeadsTo reached before (after.flush i).2

section LeadsTo

variable {reached reached' : Nat → Prop} {before after later : Sinks}

/-- A write reaches one sink. -/
theorem leadsTo_write (sinks : Sinks) (i : Nat) (bytes : Bytes) :
    LeadsTo (· = i) sinks (sinks.write i bytes).2 :=
  @LeadsTo.write (· = i) sinks sinks i .refl rfl bytes

/-- A flush reaches one sink. -/
theorem leadsTo_flush (sinks : Sinks) (i : Nat) : LeadsTo (· = i) sinks (sinks.flush i).2 :=
  @LeadsTo.flush (· = i) sinks sinks i .refl rfl

/-- Operations in a row. -/
theorem LeadsTo.trans (h : LeadsTo reached before after) (h' : LeadsTo reached after later) :
    LeadsTo reached before later := by
  induction h' with
  | refl => exact h
  | write _ hi bytes ih => exact ih.write hi bytes
  | flush _ hi ih => exact ih.flush hi

/-- More sinks may be reached. -/
theorem LeadsTo.mono (h : LeadsTo reached before after) (hmono : ∀ i, reached i → reached' i) :
    LeadsTo reached' before after := by
  induction h with
  | refl => exact .refl
  | write _ hi bytes ih => exact ih.write (hmono _ hi) bytes
  | flush _ hi ih => exact ih.flush (hmono _ hi)

/-- Sinks at other positions stay as they are. -/
theorem LeadsTo.getElem?_of_not (h : LeadsTo reached before after) {j : Nat} (hj : ¬ reached j) :
    after[j]? = before[j]? := by
  induction h with
  | refl => rfl
  | @write _ i _ hi bytes ih =>
    have hne : j ≠ i := fun hji => hj (hji ▸ hi)
    rw [write_getElem?, if_neg hne, ih]
  | @flush _ i _ hi ih =>
    have hne : j ≠ i := fun hji => hj (hji ▸ hi)
    rw [flush_getElem?, if_neg hne, ih]

/-- Every sink is still there, at a later time. -/
theorem LeadsTo.precedes (h : LeadsTo reached before after) {j : Nat} {sink : Sink}
    (hj : before[j]? = some sink) : ∃ sink', after[j]? = some sink' ∧ sink.Precedes sink' := by
  induction h with
  | refl => exact ⟨sink, hj, .refl sink⟩
  | @write _ i _ hi bytes ih =>
    obtain ⟨sink', hsink', hprecedes⟩ := ih
    -- Only the sink that is written to changes.
    by_cases hji : j = i
    · subst hji
      refine ⟨(sink'.write bytes).2, ?_, hprecedes.trans (sink'.precedes_write bytes)⟩
      rw [write_getElem?, if_pos rfl, hsink', Option.map_some]
    · exact ⟨sink', by rw [write_getElem?, if_neg hji, hsink'], hprecedes⟩
  | @flush _ i _ hi ih =>
    obtain ⟨sink', hsink', hprecedes⟩ := ih
    by_cases hji : j = i
    · subst hji
      refine ⟨sink'.flush.2, ?_, hprecedes.trans sink'.precedes_flush⟩
      rw [flush_getElem?, if_pos rfl, hsink', Option.map_some]
    · exact ⟨sink', by rw [flush_getElem?, if_neg hji, hsink'], hprecedes⟩

/-- No sink is added. -/
theorem LeadsTo.getElem?_eq_none (h : LeadsTo reached before after) {j : Nat}
    (hj : before[j]? = none) : after[j]? = none := by
  induction h with
  | refl => exact hj
  | write _ _ bytes ih => rw [write_getElem?]; split <;> simp_all
  | flush _ _ ih => rw [flush_getElem?]; split <;> simp_all

/-- What a sink had received stands in front of what it has received later. -/
theorem LeadsTo.received (h : LeadsTo reached before after) (j : Nat) :
    before.received j <+: after.received j := by
  unfold Sinks.received
  cases hj : before[j]? with
  | none => exact List.nil_prefix
  | some sink =>
    obtain ⟨sink', hsink', hprecedes⟩ := h.precedes hj
    rw [hsink']
    exact hprecedes.received

/-- A sink that is not reached has received nothing more. -/
theorem LeadsTo.received_of_not (h : LeadsTo reached before after) {j : Nat} (hj : ¬ reached j) :
    after.received j = before.received j := by
  rw [Sinks.received, h.getElem?_of_not hj, Sinks.received]

/-- No sink reports a fault later that it did not report before. -/
theorem LeadsTo.mayReport (h : LeadsTo reached before after) {j : Nat} {fault : StreamFault}
    (hj : ∃ sink, after[j]? = some sink ∧ sink.MayReport fault) :
    ∃ sink, before[j]? = some sink ∧ sink.MayReport fault := by
  obtain ⟨sink', hsink', hreport⟩ := hj
  cases hsink : before[j]? with
  | none => cases (h.getElem?_eq_none hsink).symm.trans hsink'
  | some sink =>
    obtain ⟨sink'', hsink'', hprecedes⟩ := h.precedes hsink
    cases hsink'.symm.trans hsink''
    exact ⟨sink, rfl, hprecedes.mayReport hreport⟩

end LeadsTo

end Sinks

/-! ### Channels -/

namespace Channel

/-- How bytes get to a sink, and which one it is. -/
def way : Channel → SinkKind × Nat
  | .direct sink => (.memory, sink)
  | .flushing sink => (.flusher, sink)
  | .buffered buffer => (.plain, buffer.sink)

/-- The sink of a channel. -/
def sink (channel : Channel) : Nat :=
  channel.way.2

/-- The fault that a channel keeps. -/
def fault : Channel → Option StreamFault
  | .buffered buffer => buffer.fault
  | _ => none

/-- Whether a fault can come of using a channel. -/
def MayReport (channel : Channel) (sinks : Sinks) (fault : StreamFault) : Prop :=
  fault = .shortWrite ∨ channel.fault = some fault ∨
    ∃ sink, sinks[channel.sink]? = some sink ∧ sink.MayReport fault

/-- What is done to the sinks makes a channel report no other faults. -/
theorem MayReport.of_leadsTo {reached : Nat → Prop} {channel : Channel} {before after : Sinks}
    {fault : StreamFault} (hleads : Sinks.LeadsTo reached before after)
    (h : channel.MayReport after fault) : channel.MayReport before fault := by
  rcases h with hshort | hkept | hsink
  · exact Or.inl hshort
  · exact Or.inr (Or.inl hkept)
  · exact Or.inr (Or.inr (hleads.mayReport hsink))

/-- What an operation on a channel may do, given the fault it reports and what it leaves. -/
structure Sequel (channel : Channel) (sinks : Sinks) (fault : Option StreamFault)
    (channel' : Channel) (sinks' : Sinks) : Prop where
  /-- The way to the sink stays. -/
  way : channel'.way = channel.way
  /-- No other sink is reached. -/
  leads : Sinks.LeadsTo (· = channel.sink) sinks sinks'
  /-- The fault is one that the channel can report. -/
  reported : ∀ f, fault = some f → channel.MayReport sinks f
  /-- So is the fault that the channel keeps. -/
  kept : ∀ f, channel'.fault = some f → channel.MayReport sinks f

variable {channel channel' channel'' : Channel} {sinks sinks' sinks'' : Sinks}
  {fault fault' : Option StreamFault}

/-- What can be reported later could be reported before. -/
theorem Sequel.mayReport (h : channel.Sequel sinks fault channel' sinks') {f : StreamFault}
    (hreport : channel'.MayReport sinks' f) : channel.MayReport sinks f := by
  rcases hreport with hshort | hkept | hsink
  · exact Or.inl hshort
  · exact h.kept f hkept
  · have hsame : channel'.sink = channel.sink := congrArg Prod.snd h.way
    rw [hsame] at hsink
    exact Or.inr (Or.inr (h.leads.mayReport hsink))

/-- Operations in a row. The fault is that of the last one. -/
theorem Sequel.trans (h : channel.Sequel sinks fault channel' sinks')
    (h' : channel'.Sequel sinks' fault' channel'' sinks'') :
    channel.Sequel sinks fault' channel'' sinks'' where
  way := h'.way.trans h.way
  leads := by
    have hsame : channel'.sink = channel.sink := congrArg Prod.snd h.way
    have hsinks := h'.leads
    rw [hsame] at hsinks
    exact h.leads.trans hsinks
  reported f hf := h.mayReport (h'.reported f hf)
  kept f hf := h.mayReport (h'.kept f hf)

/-- Nothing is done, and a fault that the channel keeps is reported. -/
theorem Sequel.idle (hfault : ∀ f, fault = some f → channel.MayReport sinks f) :
    channel.Sequel sinks fault channel sinks :=
  ⟨rfl, .refl, hfault, fun _ hf => Or.inr (Or.inl hf)⟩

section Buffers

variable (buffer : Buffer) (sinks : Sinks)

/-- Holding back more bytes is no matter of the sinks. -/
private theorem sequel_hold (bytes : Bytes) :
    (Channel.buffered buffer).Sequel sinks none (.buffered (buffer.hold bytes)) sinks :=
  ⟨rfl, .refl, nofun, fun _ hf => Or.inr (Or.inl hf)⟩

/-- The fault of a flush is one of the sink, or says that the sink took too little. -/
private theorem mayReport_of_heldWrite {fault : StreamFault}
    (h : (match (sinks.write buffer.sink buffer.held.toList).1.fault with
      | some fault => some fault
      | none => if (sinks.write buffer.sink buffer.held.toList).1.count <
          buffer.held.toList.length then some .shortWrite else none) = some fault) :
    (Channel.buffered buffer).MayReport sinks fault := by
  split at h
  · next hwrite =>
    cases h
    exact Or.inr (Or.inr (Sinks.mayReport_of_write hwrite))
  · split at h
    · cases h
      exact Or.inl rfl
    · cases h

/-- Flushing a `buffer`. -/
private theorem sequel_bufferFlush : (Channel.buffered buffer).Sequel sinks (buffer.flush sinks).1
    (.buffered (buffer.flush sinks).2.1) (buffer.flush sinks).2.2 := by
  unfold Buffer.flush
  split
  · next fault hfault => exact .idle fun f hf => Or.inr (Or.inl (hfault.trans hf))
  · split
    · exact .idle fun _ h => by cases h
    · -- The buffer keeps the fault that it reports.
      exact ⟨rfl, sinks.leadsTo_write buffer.sink buffer.held.toList,
        fun _ => mayReport_of_heldWrite buffer sinks, fun _ => mayReport_of_heldWrite buffer sinks⟩

/-- Writing `bytes` to a `buffer` that may be too small for them. -/
private theorem sequel_writeThrough (sofar : Nat) (bytes : Bytes) :
    (Channel.buffered buffer).Sequel sinks (buffer.writeThrough sofar bytes sinks).1.fault
      (.buffered (buffer.writeThrough sofar bytes sinks).2.1)
      (buffer.writeThrough sofar bytes sinks).2.2 := by
  fun_induction Buffer.writeThrough buffer sofar bytes sinks with
  | case1 sofar bytes sinks hfits => exact sequel_hold buffer sinks bytes
  | case2 sofar bytes sinks hlong written sinks' hwrite fault hfault =>
    have hreply : (sinks.write buffer.sink bytes).1.fault = some fault := by rw [hwrite, hfault]
    have hreport : (Channel.buffered buffer).MayReport sinks fault :=
      Or.inr (Or.inr (Sinks.mayReport_of_write hreply))
    have hsinks := sinks.leadsTo_write buffer.sink bytes
    rw [hwrite] at hsinks
    exact ⟨rfl, hsinks, fun f hf => Option.some.inj hf ▸ hreport,
      fun f hf => Option.some.inj hf ▸ hreport⟩
  | case3 sofar bytes sinks hlong written sinks' hwrite hfault hcount =>
    have hsinks := sinks.leadsTo_write buffer.sink bytes
    rw [hwrite] at hsinks
    exact ⟨rfl, hsinks, fun f hf => Or.inl (Option.some.inj hf).symm,
      fun f hf => Or.inl (Option.some.inj hf).symm⟩
  | case4 sofar bytes sinks hlong written sinks' hwrite hfault hcount ih =>
    have hsinks := sinks.leadsTo_write buffer.sink bytes
    rw [hwrite] at hsinks
    have hpassed : (Channel.buffered buffer).Sequel sinks none (.buffered buffer) sinks' :=
      ⟨rfl, hsinks, nofun, fun _ hf => Or.inr (Or.inl hf)⟩
    exact hpassed.trans ih

/-- Writing `bytes` to a `buffer`. -/
private theorem sequel_bufferWrite (bytes : Bytes) :
    (Channel.buffered buffer).Sequel sinks (buffer.write bytes sinks).1.fault
      (.buffered (buffer.write bytes sinks).2.1) (buffer.write bytes sinks).2.2 := by
  unfold Buffer.write
  split
  · next fault hfault => exact .idle fun f hf => Or.inr (Or.inl (hfault.trans hf))
  · split
    · exact sequel_hold buffer sinks bytes
    · split
      · exact sequel_writeThrough buffer sinks 0 bytes
      · -- The buffer is filled up, flushed, and written through.
        have hflush := (sequel_hold buffer sinks (bytes.take buffer.free)).trans
          (sequel_bufferFlush (buffer.hold (bytes.take buffer.free)) sinks)
        dsimp only
        split
        · next fault hfault => rwa [hfault] at hflush
        · exact hflush.trans (sequel_writeThrough _ _ buffer.free (bytes.drop buffer.free))

/-- Writing a byte to a `buffer`. -/
private theorem sequel_bufferWriteByte (b : UInt8) :
    (Channel.buffered buffer).Sequel sinks (buffer.writeByte b sinks).1
      (.buffered (buffer.writeByte b sinks).2.1) (buffer.writeByte b sinks).2.2 := by
  unfold Buffer.writeByte
  split
  · next fault hfault => exact .idle fun f hf => Or.inr (Or.inl (hfault.trans hf))
  · split
    · exact ⟨rfl, .refl, fun _ h => (by cases h), fun _ hf => Or.inr (Or.inl hf)⟩
    · have hflush := sequel_bufferFlush buffer sinks
      dsimp only
      split
      · next fault hfault => rwa [hfault] at hflush
      · exact ⟨hflush.way, hflush.leads, fun _ h => (by cases h), hflush.kept⟩

end Buffers

/-- A write that goes to the sink at once. -/
private theorem sequel_sinkWrite {channel : Channel} (bytes : Bytes) (sinks : Sinks) :
    channel.Sequel sinks (sinks.write channel.sink bytes).1.fault channel
      (sinks.write channel.sink bytes).2 :=
  ⟨rfl, sinks.leadsTo_write channel.sink bytes,
    fun _ hf => Or.inr (Or.inr (Sinks.mayReport_of_write hf)), fun _ hf => Or.inr (Or.inl hf)⟩

/-- Writing `bytes` to a `channel`. -/
theorem sequel_write (channel : Channel) (bytes : Bytes) (sinks : Sinks) :
    channel.Sequel sinks (channel.write bytes sinks).1.fault (channel.write bytes sinks).2.1
      (channel.write bytes sinks).2.2 := by
  cases channel with
  | direct i => exact sequel_sinkWrite bytes sinks
  | flushing i => exact sequel_sinkWrite bytes sinks
  | buffered buffer => exact sequel_bufferWrite buffer sinks bytes

/-- Writing a byte to a `channel`. -/
theorem sequel_writeByte (channel : Channel) (b : UInt8) (sinks : Sinks) :
    channel.Sequel sinks (channel.writeByte b sinks).1 (channel.writeByte b sinks).2.1
      (channel.writeByte b sinks).2.2 := by
  cases channel with
  | direct i => exact sequel_sinkWrite [b] sinks
  | flushing i => exact sequel_sinkWrite [b] sinks
  | buffered buffer => exact sequel_bufferWriteByte buffer sinks b

/-- Flushing a `channel`. -/
theorem sequel_flush (channel : Channel) (sinks : Sinks) :
    channel.Sequel sinks (channel.flush sinks).1 (channel.flush sinks).2.1
      (channel.flush sinks).2.2 := by
  cases channel with
  | direct i => exact .idle nofun
  | flushing i =>
    exact ⟨rfl, sinks.leadsTo_flush i, fun _ hf => Or.inr (Or.inr (Sinks.mayReport_of_flush hf)),
      nofun⟩
  | buffered buffer => exact sequel_bufferFlush buffer sinks

end Channel

/-! ### Outputs -/

namespace Output

/-- Whether an output has a way to the sink at a position. -/
def WritesTo (output : Output) (i : Nat) : Prop :=
  i ∈ output.map Channel.sink

/-- Whether a fault can come of using an output. -/
def MayReport (output : Output) (sinks : Sinks) (fault : StreamFault) : Prop :=
  ∃ channel ∈ output, channel.MayReport sinks fault

/-- Faults do not come to the sinks of an `output` later on. -/
theorem MayReport.of_leadsTo {reached : Nat → Prop} {output : Output} {before after : Sinks}
    {fault : StreamFault} (hleads : Sinks.LeadsTo reached before after)
    (h : output.MayReport after fault) : output.MayReport before fault := by
  obtain ⟨channel, hchannel, hreport⟩ := h
  exact ⟨channel, hchannel, hreport.of_leadsTo hleads⟩

/-- What an operation on an output may do, given the fault it reports and what it leaves. -/
structure Sequel (output : Output) (sinks : Sinks) (fault : Option StreamFault)
    (output' : Output) (sinks' : Sinks) : Prop where
  /-- The ways to the sinks stay. -/
  ways : output'.map Channel.way = output.map Channel.way
  /-- No other sinks are reached. -/
  leads : Sinks.LeadsTo output.WritesTo sinks sinks'
  /-- The fault is one that the output can report. -/
  reported : ∀ f, fault = some f → output.MayReport sinks f
  /-- No other faults can come of the output later. -/
  mayReport : ∀ f, output'.MayReport sinks' f → output.MayReport sinks f

variable {channel channel' : Channel} {rest rest' : Output} {sinks sinks' sinks'' : Sinks}
  {fault fault' fault'' : Option StreamFault}

/-- To do nothing. -/
theorem Sequel.refl (output : Output) (sinks : Sinks) : output.Sequel sinks none output sinks :=
  ⟨rfl, .refl, nofun, fun _ h => h⟩

/-- A channel is used, and the other ones are not. -/
private theorem sequel_cons_stop (rest : Output)
    (h : channel.Sequel sinks fault channel' sinks') :
    Sequel (channel :: rest) sinks fault (channel' :: rest) sinks' where
  ways := by rw [List.map_cons, List.map_cons, h.way]
  leads := h.leads.mono fun i hi => by subst hi; exact List.mem_cons_self ..
  reported f hf := ⟨channel, List.mem_cons_self .., h.reported f hf⟩
  mayReport f := by
    rintro ⟨c, hc, hreport⟩
    rcases List.mem_cons.mp hc with rfl | hc
    · exact ⟨channel, List.mem_cons_self .., h.mayReport hreport⟩
    · exact ⟨c, List.mem_cons_of_mem _ hc, hreport.of_leadsTo h.leads⟩

/-- A channel is used, and then the other ones. -/
private theorem sequel_cons (h : channel.Sequel sinks fault channel' sinks')
    (hrest : Sequel rest sinks' fault' rest' sinks'')
    (hfault : ∀ f, fault'' = some f → fault = some f ∨ fault' = some f) :
    Sequel (channel :: rest) sinks fault'' (channel' :: rest') sinks'' := by
  have hfirst := sequel_cons_stop rest h
  refine ⟨?_, ?_, fun f hf => ?_, ?_⟩
  · rw [List.map_cons, List.map_cons, h.way, hrest.ways]
  · exact hfirst.leads.trans (hrest.leads.mono fun i hi => List.mem_cons_of_mem _ hi)
  · rcases hfault f hf with hf | hf
    · exact hfirst.reported f hf
    -- A fault of a later channel was possible before the first channel was used.
    · obtain ⟨c, hc, hreport⟩ := hrest.reported f hf
      exact hfirst.mayReport f ⟨c, List.mem_cons_of_mem _ hc, hreport⟩
  · rintro f ⟨c, hc, hreport⟩
    apply hfirst.mayReport f
    rcases List.mem_cons.mp hc with rfl | hc
    · exact ⟨c, List.mem_cons_self .., hreport.of_leadsTo hrest.leads⟩
    · obtain ⟨c', hc', hreport'⟩ := hrest.mayReport f ⟨c, hc, hreport⟩
      exact ⟨c', List.mem_cons_of_mem _ hc', hreport'⟩

/-- Writing `bytes` to the ways of an `output`, one after another. -/
theorem sequel_writeEach (bytes : Bytes) (output : Output) : ∀ sinks : Sinks,
    output.Sequel sinks (output.writeEach bytes sinks).1.fault (output.writeEach bytes sinks).2.1
      (output.writeEach bytes sinks).2.2 := by
  induction output with
  | nil => exact Sequel.refl []
  | cons channel rest ih =>
    intro sinks
    have hfirst := channel.sequel_write bytes sinks
    unfold writeEach
    dsimp only
    split
    · next fault hfault =>
      rw [hfault] at hfirst
      exact sequel_cons_stop rest hfirst
    · split
      -- A short write reports no fault itself, but is turned into one.
      · have hshort : channel.Sequel sinks (some .shortWrite) (channel.write bytes sinks).2.1
            (channel.write bytes sinks).2.2 :=
          ⟨hfirst.way, hfirst.leads, fun f hf => Or.inl (Option.some.inj hf).symm, hfirst.kept⟩
        exact sequel_cons_stop rest hshort
      · exact sequel_cons hfirst (ih _) fun f hf => Or.inr hf

/-- Writing `bytes` to an `output`. -/
theorem sequel_write (output : Output) (bytes : Bytes) (sinks : Sinks) :
    output.Sequel sinks (output.write bytes sinks).1.fault (output.write bytes sinks).2.1
      (output.write bytes sinks).2.2 := by
  unfold write
  split
  · next channel => exact sequel_cons_stop [] (channel.sequel_write bytes sinks)
  · exact sequel_writeEach bytes output sinks

/-- Writing a byte to an `output`. -/
theorem sequel_writeByte (b : UInt8) (output : Output) : ∀ sinks : Sinks,
    output.Sequel sinks (output.writeByte b sinks).1 (output.writeByte b sinks).2.1
      (output.writeByte b sinks).2.2 := by
  induction output with
  | nil => exact Sequel.refl []
  | cons channel rest ih =>
    intro sinks
    have hfirst := channel.sequel_writeByte b sinks
    unfold writeByte
    dsimp only
    split
    · next fault hfault =>
      rw [hfault] at hfirst
      exact sequel_cons_stop rest hfirst
    · exact sequel_cons hfirst (ih _) fun f hf => Or.inr hf

/-- Flushing an `output`. -/
theorem sequel_flush (output : Output) : ∀ sinks : Sinks,
    output.Sequel sinks (output.flush sinks).1 (output.flush sinks).2.1
      (output.flush sinks).2.2 := by
  induction output with
  | nil => exact Sequel.refl []
  | cons channel rest ih =>
    intro sinks
    refine sequel_cons (channel.sequel_flush sinks) (ih _) fun f hf => ?_
    change ((channel.flush sinks).1 <|> _) = some f at hf
    cases hfirst : (channel.flush sinks).1 with
    | none =>
      rw [hfirst] at hf
      exact Or.inr hf
    | some fault =>
      rw [hfirst] at hf
      exact Or.inl hf

end Output

end TapeMachine
