import TapeMachine.Proofs.StreamHistory

/-!
# What outputs carry

The bytes that a sink has received and the bytes that the way to it still holds back make up what
was written on this way. Flushing only moves bytes from the one to the other, also if it fails
halfway. Writing a byte adds it on the ways it gets to, and it gets to all of them unless a fault is
reported. For this the ways of an output must lead to different sinks, and no sink may drop bytes in
silence.

The module introduces:

* `Channel.held`, `Channel.carried`: what a channel holds back, and all that it carries;
* `Output.Sound`: the ways of an output are told apart, and sinks are honest about their faults;
* `Output.carried_flush`, `Output.carries_writeByte`: what flushing and writing do to what is
  carried.
-/

namespace TapeMachine

/-! ### Sinks -/

/-- Whether a sink reports every write that does not fit, and never as the end of a file. -/
structure Sink.Honest (sink : Sink) : Prop where
  /-- A write that does not fit is reported. -/
  reports : ∀ allowance ∈ sink.allowances, allowance.room = none ∨ allowance.fault ≠ none
  /-- No fault is reported as the end of a file. -/
  noEnd : ¬ sink.MayReport .endOfFile

namespace Sink

/-- An honest sink stays honest. -/
theorem Precedes.honest {before after : Sink} (h : before.Precedes after)
    (hbefore : before.Honest) : after.Honest where
  reports := by
    intro allowance hallowance
    obtain ⟨earlier, hearlier, hfault, hroom⟩ := h.allowances allowance hallowance
    rw [hfault]
    exact (hbefore.reports earlier hearlier).imp_left hroom
  noEnd := fun hafter => hbefore.noEnd (h.mayReport hafter)

/-- A sink receives the bytes that it says it takes. -/
theorem received_write (sink : Sink) (bytes : Bytes) :
    (sink.write bytes).2.received = sink.received ++ bytes.take (sink.write bytes).1.count := by
  unfold write
  split
  · simp [received]
  · next room _ =>
    split
    · simp [received]
    · by_cases hroom : room = 0
      · simp [received, hroom]
      · simp [received, hroom]

/-- A request to flush brings no bytes. -/
theorem received_flush (sink : Sink) : sink.flush.2.received = sink.received := by
  unfold flush
  split <;> simp [received]

/-- An honest sink that reports nothing has taken everything. -/
theorem Honest.count_write {sink : Sink} (h : sink.Honest) {bytes : Bytes}
    (hfault : (sink.write bytes).1.fault = none) : (sink.write bytes).1.count = bytes.length := by
  unfold write at hfault ⊢
  split at hfault
  · rfl
  · next room hroom =>
    split at hfault
    · next hfits => rw [if_pos hfits]
    · rcases h.reports _ (List.mem_cons_self ..) with hnone | hsome
      · cases hroom.symm.trans hnone
      · exact absurd hfault hsome

end Sink

namespace Sinks

variable {sinks : Sinks} {i : Nat} {sink : Sink}

theorem received_of_getElem? (h : sinks[i]? = some sink) : sinks.received i = sink.received := by
  rw [received, h]
  rfl

theorem received_write (h : sinks[i]? = some sink) (bytes : Bytes) :
    (sinks.write i bytes).2.received i =
      sinks.received i ++ bytes.take (sinks.write i bytes).1.count := by
  have hafter : (sinks.write i bytes).2[i]? = some (sink.write bytes).2 := by
    rw [write_getElem?, if_pos rfl, h, Option.map_some]
  rw [received_of_getElem? hafter, received_of_getElem? h, write_reply bytes h]
  exact sink.received_write bytes

theorem received_flush (sinks : Sinks) (i j : Nat) :
    (sinks.flush i).2.received j = sinks.received j := by
  rw [received, received, flush_getElem?]
  split
  · next hji =>
    subst hji
    rw [Option.map_map]
    congr 2
    funext sink
    exact sink.received_flush
  · rfl

end Sinks

/-! ### Channels -/

namespace Channel

variable {channel : Channel} {sinks : Sinks} {sink : Sink}

/-- The bytes that a channel holds back. -/
def held : Channel → Bytes
  | .buffered buffer => buffer.held.toList
  | _ => []

/-- The bytes written to a channel: those that its sink has received, and those held back. -/
def carried (channel : Channel) (sinks : Sinks) : Bytes :=
  sinks.received channel.sink ++ channel.held

/-- What is done to other sinks is no matter of a channel. -/
theorem carried_of_not {reached : Nat → Prop} {after : Sinks}
    (h : Sinks.LeadsTo reached sinks after) (hsink : ¬ reached channel.sink) :
    channel.carried after = channel.carried sinks := by
  rw [carried, carried, h.received_of_not hsink]

/-- Flushing a buffer passes bytes on in their order and loses none. -/
private theorem carried_bufferFlush (buffer : Buffer) (hsink : sinks[buffer.sink]? = some sink) :
    (buffer.flush sinks).2.2.received buffer.sink ++ (buffer.flush sinks).2.1.held.toList =
      sinks.received buffer.sink ++ buffer.held.toList := by
  unfold Buffer.flush
  split
  · rfl
  · split
    · rfl
    · dsimp only
      rw [Sinks.received_write hsink, List.append_assoc, List.take_append_drop]

/-- A buffer that is flushed without a fault holds nothing back. -/
private theorem held_bufferFlush {buffer : Buffer} (hfault : (buffer.flush sinks).1 = none) :
    (buffer.flush sinks).2.1.held = #[] ∧ (buffer.flush sinks).2.1.fault = none := by
  unfold Buffer.flush at hfault ⊢
  split
  · next fault heq =>
    rw [heq] at hfault
    cases hfault
  · next hnone =>
    simp only [hnone] at hfault
    split
    · next hempty => exact ⟨by simpa using hempty, hnone⟩
    · next hheld =>
      rw [if_neg hheld] at hfault
      dsimp only at hfault ⊢
      refine ⟨?_, hfault⟩
      -- Neither did the sink report a fault, nor did it take too few bytes.
      split at hfault
      · cases hfault
      · split at hfault
        · cases hfault
        · next hcount => simpa using hcount

theorem carried_flush (hsink : sinks[channel.sink]? = some sink) :
    (channel.flush sinks).2.1.carried (channel.flush sinks).2.2 = channel.carried sinks := by
  have hsame : (channel.flush sinks).2.1.sink = channel.sink :=
    congrArg Prod.snd (channel.sequel_flush sinks).way
  rw [carried, hsame, carried]
  cases channel with
  | direct i => rfl
  | flushing i => exact congrArg (· ++ []) (sinks.received_flush i i)
  | buffered buffer => exact carried_bufferFlush buffer hsink

/-- A channel that is flushed without a fault holds nothing back. -/
theorem held_flush (hfault : (channel.flush sinks).1 = none) :
    (channel.flush sinks).2.1.held = [] ∧ (channel.flush sinks).2.1.fault = none := by
  cases channel with
  | direct i => exact ⟨rfl, rfl⟩
  | flushing i => exact ⟨rfl, rfl⟩
  | buffered buffer =>
    obtain ⟨hheld, hnone⟩ := held_bufferFlush hfault
    exact ⟨congrArg Array.toList hheld, hnone⟩

/-- What writing a byte to a channel does to what it carries. -/
structure Extended (channel : Channel) (sinks : Sinks) (b : UInt8) (fault : Option StreamFault)
    (channel' : Channel) (sinks' : Sinks) : Prop where
  /-- The byte is the only one that may be added. -/
  carried : channel'.carried sinks' <+: channel.carried sinks ++ [b]
  /-- Without a fault the byte is added. -/
  added : fault = none →
    channel'.carried sinks' = channel.carried sinks ++ [b] ∧ channel'.fault = none

/-- A byte that goes to the sink at once. -/
private theorem extended_sinkWrite (hheld : channel.held = []) (hfault : channel.fault = none)
    (hsink : sinks[channel.sink]? = some sink) (honest : sink.Honest) (b : UInt8) :
    channel.Extended sinks b (sinks.write channel.sink [b]).1.fault channel
      (sinks.write channel.sink [b]).2 := by
  have hcarried : channel.carried (sinks.write channel.sink [b]).2 =
      channel.carried sinks ++ [b].take (sinks.write channel.sink [b]).1.count := by
    simp only [Channel.carried, hheld, List.append_nil, Sinks.received_write hsink]
  constructor
  · rw [hcarried, List.prefix_append_right_inj]
    exact List.take_prefix _ _
  · intro hnone
    rw [Sinks.write_reply [b] hsink] at hnone hcarried
    rw [hcarried, honest.count_write hnone]
    exact ⟨rfl, hfault⟩

/-- A byte that is held back, after a flush if there is no room for it. -/
private theorem extended_bufferWriteByte {buffer : Buffer} (hfault : buffer.fault = none)
    (hsink : sinks[buffer.sink]? = some sink) (b : UInt8) :
    (Channel.buffered buffer).Extended sinks b (buffer.writeByte b sinks).1
      (.buffered (buffer.writeByte b sinks).2.1) (buffer.writeByte b sinks).2.2 := by
  -- A byte that is held is carried, whether or not the buffer was flushed before.
  have hpush : ∀ (buffer' : Buffer) (sinks' : Sinks),
      (Channel.buffered buffer').carried sinks' = (Channel.buffered buffer).carried sinks →
      (Channel.buffered { buffer' with held := buffer'.held.push b }).carried sinks' =
        (Channel.buffered buffer).carried sinks ++ [b] := by
    intro buffer' sinks' h
    rw [← h]
    simp [Channel.carried, held, Channel.sink, way]
  unfold Buffer.writeByte
  split
  · next fault heq => cases hfault.symm.trans heq
  · split
    · have hcarried := hpush buffer sinks rfl
      exact ⟨hcarried ▸ List.prefix_rfl, fun _ => ⟨hcarried, hfault⟩⟩
    · have hflush := @carried_flush (.buffered buffer) sinks sink hsink
      dsimp only
      split
      · exact ⟨hflush ▸ List.prefix_append _ _, fun h => by cases h⟩
      · next hnone =>
        have hcarried := hpush _ _ hflush
        exact ⟨hcarried ▸ List.prefix_rfl, fun _ => ⟨hcarried, (held_bufferFlush hnone).2⟩⟩

theorem extended_writeByte (hfault : channel.fault = none)
    (hsink : sinks[channel.sink]? = some sink) (honest : sink.Honest) (b : UInt8) :
    channel.Extended sinks b (channel.writeByte b sinks).1 (channel.writeByte b sinks).2.1
      (channel.writeByte b sinks).2.2 := by
  cases channel with
  | direct i => exact extended_sinkWrite rfl rfl hsink honest b
  | flushing i => exact extended_sinkWrite rfl rfl hsink honest b
  | buffered buffer => exact extended_bufferWriteByte hfault hsink b

end Channel

/-! ### Outputs -/

namespace Output

variable {output : Output} {sinks : Sinks} {bytes : Bytes}

/-- Whether the ways of an output lead to different sinks, all of them honest. -/
structure Sound (output : Output) (sinks : Sinks) : Prop where
  /-- No two ways lead to one sink. -/
  distinct : (output.map Channel.sink).Nodup
  /-- Every way leads to an honest sink. -/
  honest : ∀ i, output.WritesTo i → ∃ sink, sinks[i]? = some sink ∧ sink.Honest

/-- Whether all ways of an output carry the same bytes, and no fault has occurred on any of them. -/
def Carries (output : Output) (sinks : Sinks) (bytes : Bytes) : Prop :=
  ∀ channel ∈ output, channel.carried sinks = bytes ∧ channel.fault = none

/-- Whether the ways of an output carry nothing but what some bytes begin with. -/
def CarriesOf (output : Output) (sinks : Sinks) (bytes : Bytes) : Prop :=
  ∀ channel ∈ output, channel.carried sinks <+: bytes

theorem Carries.carriesOf (h : output.Carries sinks bytes) {more : Bytes}
    (hmore : bytes <+: more) : output.CarriesOf sinks more := fun channel hchannel =>
  (h channel hchannel).1 ▸ hmore

/-- What is done to other sinks is no matter of an output. -/
theorem Carries.of_leadsTo {reached : Nat → Prop} {after : Sinks}
    (h : output.Carries sinks bytes) (hleads : Sinks.LeadsTo reached sinks after)
    (hreached : ∀ i, reached i → ¬ output.WritesTo i) : output.Carries after bytes := by
  intro channel hchannel
  have hnot : ¬ reached channel.sink := fun hi =>
    hreached _ hi (List.mem_map_of_mem hchannel)
  exact ⟨(Channel.carried_of_not hleads hnot).trans (h channel hchannel).1, (h channel hchannel).2⟩

theorem Sound.of_leadsTo {reached : Nat → Prop} {after : Sinks} (h : output.Sound sinks)
    (hleads : Sinks.LeadsTo reached sinks after) : output.Sound after where
  distinct := h.distinct
  honest i hi := by
    obtain ⟨sink, hsink, honest⟩ := h.honest i hi
    obtain ⟨sink', hsink', hprecedes⟩ := hleads.precedes hsink
    exact ⟨sink', hsink', hprecedes.honest honest⟩

/-- The first way of a sound output and the others do not meet. -/
private theorem Sound.cons {channel : Channel} {rest : Output} (h : Sound (channel :: rest) sinks) :
    ¬ WritesTo rest channel.sink ∧ Sound rest sinks := by
  have hdistinct := h.distinct
  rw [List.map_cons, List.nodup_cons] at hdistinct
  exact ⟨hdistinct.1, hdistinct.2, fun i hi => h.honest i (List.mem_cons_of_mem _ hi)⟩

/-- Flushing changes nothing about what the ways of an output carry, whether it fails or not. -/
theorem carried_flush {p : Bytes → Prop} : ∀ {sinks : Sinks}, output.Sound sinks →
    (∀ channel ∈ output, p (channel.carried sinks)) →
    ∀ channel ∈ (output.flush sinks).2.1, p (channel.carried (output.flush sinks).2.2) := by
  induction output with
  | nil => exact fun _ _ => nofun
  | cons first rest ih =>
    intro sinks hsound h channel hchannel
    obtain ⟨hapart, hrest⟩ := hsound.cons
    obtain ⟨sink, hsink, -⟩ := hsound.honest first.sink (List.mem_cons_self ..)
    have hfirst := first.sequel_flush sinks
    have hlater := sequel_flush rest (first.flush sinks).2.2
    rcases List.mem_cons.mp hchannel with rfl | hchannel
    · -- The sink of the first channel is not reached by the others.
      have hsame : (first.flush sinks).2.1.sink = first.sink := congrArg Prod.snd hfirst.way
      have hkept := Channel.carried_of_not hlater.leads (hsame ▸ hapart)
      have hcarried := hkept.trans (Channel.carried_flush hsink)
      exact hcarried ▸ h first (List.mem_cons_self ..)
    · refine ih (hrest.of_leadsTo hfirst.leads) (fun c hc => ?_) channel hchannel
      have hnot : c.sink ≠ first.sink := fun heq => hapart (heq ▸ List.mem_map_of_mem hc)
      rw [Channel.carried_of_not hfirst.leads hnot]
      exact h c (List.mem_cons_of_mem _ hc)

/-- An output that is flushed without a fault holds nothing back. -/
theorem held_flush : ∀ {sinks : Sinks}, (output.flush sinks).1 = none →
    ∀ channel ∈ (output.flush sinks).2.1, channel.held = [] ∧ channel.fault = none := by
  induction output with
  | nil => exact fun _ => nofun
  | cons first rest ih =>
    intro sinks hfault channel hchannel
    change ((first.flush sinks).1 <|> _) = none at hfault
    cases hfirst : (first.flush sinks).1 with
    | some fault =>
      rw [hfirst] at hfault
      cases hfault
    | none =>
      rw [hfirst] at hfault
      rcases List.mem_cons.mp hchannel with rfl | hchannel
      · exact Channel.held_flush hfirst
      · exact ih hfault channel hchannel

/-- A byte written to an output is added on every way unless a fault is reported, and on some ways
if one is. -/
theorem carries_writeByte (b : UInt8) : ∀ {sinks : Sinks}, output.Sound sinks →
    output.Carries sinks bytes →
    (output.writeByte b sinks).2.1.CarriesOf (output.writeByte b sinks).2.2 (bytes ++ [b]) ∧
      ((output.writeByte b sinks).1 = none →
        (output.writeByte b sinks).2.1.Carries (output.writeByte b sinks).2.2 (bytes ++ [b])) := by
  induction output with
  | nil => exact fun _ _ => ⟨nofun, fun _ => nofun⟩
  | cons first rest ih =>
    intro sinks hsound h
    obtain ⟨hapart, hrest⟩ := hsound.cons
    obtain ⟨sink, hsink, honest⟩ := hsound.honest first.sink (List.mem_cons_self ..)
    obtain ⟨hcarried, hnone⟩ := h first (List.mem_cons_self ..)
    have hsequel := first.sequel_writeByte b sinks
    have hextended := Channel.extended_writeByte hnone hsink honest b
    have hothers : Carries rest (first.writeByte b sinks).2.2 bytes :=
      Carries.of_leadsTo (fun c hc => h c (List.mem_cons_of_mem _ hc)) hsequel.leads
        fun i hi => hi ▸ hapart
    unfold writeByte
    dsimp only
    split
    · refine ⟨fun c hc => ?_, nofun⟩
      rcases List.mem_cons.mp hc with rfl | hc
      · exact hcarried ▸ hextended.carried
      · exact hothers.carriesOf (List.prefix_append ..) c hc
    · next hfault =>
      obtain ⟨hadded, hstill⟩ := hextended.added hfault
      obtain ⟨hlater, hall⟩ := ih (hrest.of_leadsTo hsequel.leads) hothers
      -- The sink of the first channel is not reached by the others.
      have hsame : (first.writeByte b sinks).2.1.sink = first.sink := congrArg Prod.snd hsequel.way
      have hkept : (first.writeByte b sinks).2.1.carried
          (writeByte b rest (first.writeByte b sinks).2.2).2.2 = bytes ++ [b] := by
        rw [Channel.carried_of_not (sequel_writeByte b rest _).leads (hsame ▸ hapart), hadded,
          hcarried]
      refine ⟨fun c hc => ?_, fun hnone' c hc => ?_⟩
      · rcases List.mem_cons.mp hc with rfl | hc
        · exact hkept ▸ List.prefix_rfl
        · exact hlater c hc
      · rcases List.mem_cons.mp hc with rfl | hc
        · exact ⟨hkept, hstill⟩
        · exact hall hnone' c hc

end Output

end TapeMachine
