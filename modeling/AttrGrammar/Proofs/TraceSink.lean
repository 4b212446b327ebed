import AttrGrammar.Scan.TraceLog

/-! A trace written to a sink with room for so many bytes, next to the same trace written without a
bound. As long as all of it fits, the two get the same lines; the line that does not fit is cut where
the room ends, and from then on the sink takes nothing. So at each moment the sink holds the first
bytes of the unbounded trace, as many as it has room for. -/

namespace AttrGrammar.Scan
open Text

namespace Sink

/-- What a sink with room for `capacity` bytes, which may be unable to flush, holds of what another
one was given. -/
structure Mirrors (capacity : Nat) (flushFails : Bool) (sink seen : Sink) : Prop where
  bytes : seen.bytes = sink.bytes.extract 0 capacity
  room : seen.room = some (capacity - sink.bytes.size)
  flushFails : seen.flushFails = flushFails

variable {capacity : Nat} {flushFails : Bool} {sink sink' seen : Sink}

theorem bytes_cons (piece : ByteArray) (pieces : List ByteArray) (room room' : Option Nat)
    (flushFails flushFails' : Bool) :
    bytes ⟨piece :: pieces, room, flushFails⟩ = bytes ⟨pieces, room', flushFails'⟩ ++ piece := by
  simp only [bytes, List.reverse_cons, List.foldl_append, List.foldl_cons, List.foldl_nil]

theorem extract_of_size_le {bytes : ByteArray} (h : bytes.size ≤ capacity) :
    bytes.extract 0 capacity = bytes := by
  rw [ByteArray.ext_iff, ByteArray.data_extract]
  exact Array.extract_eq_self_of_le h

/-- The part of a longer text that lies within a bound. -/
theorem extract_append (bytes more : ByteArray) :
    (bytes ++ more).extract 0 capacity =
      bytes.extract 0 capacity ++ more.extract 0 (capacity - bytes.size) := by
  rw [ByteArray.extract_append, Nat.zero_sub]

theorem write_unlimited (h : sink.room = none) (text : String) :
    (sink.write text).1 = true ∧ (sink.write text).2.bytes = sink.bytes ++ text.toUTF8 ∧
      (sink.write text).2.room = none ∧ (sink.write text).2.flushFails = sink.flushFails := by
  have hwrite : sink.write text = (true, { sink with pieces := text.toUTF8 :: sink.pieces }) := by
    simp only [write, h]
  rw [hwrite]
  exact ⟨rfl, bytes_cons _ _ _ _ _ _, h, rfl⟩

/-- A bounded sink takes what it has room for and tells whether that was all. -/
theorem write_limited {room : Nat} (h : sink.room = some room) (text : String) :
    ((sink.write text).1 = true ↔ text.toUTF8.size ≤ room) ∧
      (sink.write text).2.bytes = sink.bytes ++ text.toUTF8.extract 0 room ∧
      (sink.write text).2.room = some (room - text.toUTF8.size) ∧
      (sink.write text).2.flushFails = sink.flushFails := by
  simp only [write, h]
  split
  · next hfits =>
    refine ⟨iff_of_true rfl hfits, ?_, rfl, rfl⟩
    rw [extract_of_size_le hfits]
    exact bytes_cons _ _ _ _ _ _
  · next hcut =>
    have hfull : room - text.toUTF8.size = 0 := by omega
    refine ⟨iff_of_false Bool.false_ne_true hcut, bytes_cons _ _ _ _ _ _, ?_, rfl⟩
    rw [hfull]

/-- While everything fits, a text is taken whole exactly if it fits too. -/
theorem Mirrors.write (h : Mirrors capacity flushFails sink seen) (hroom : sink.room = none)
    (hfits : sink.bytes.size ≤ capacity) (text : String) :
    ((seen.write text).1 = true ↔ (sink.write text).2.bytes.size ≤ capacity) ∧
      Mirrors capacity flushFails (sink.write text).2 (seen.write text).2 := by
  obtain ⟨-, hbytes, -, -⟩ := write_unlimited hroom text
  obtain ⟨hdone, hseen, hleft, hflush⟩ := write_limited h.room text
  have hsize : (sink.write text).2.bytes.size = sink.bytes.size + text.toUTF8.size := by
    rw [hbytes, ByteArray.size_append]
  refine ⟨?_, ?_, ?_, hflush.trans h.flushFails⟩
  · rw [hdone, hsize]
    omega
  · rw [hseen, hbytes, extract_append, h.bytes]
  · rw [hleft, hsize, Nat.sub_sub]

/-- A full sink takes nothing. -/
theorem Mirrors.write_full (h : Mirrors capacity flushFails sink seen)
    (hfull : ¬ sink.bytes.size ≤ capacity) (text : String) :
    Mirrors capacity flushFails sink (seen.write text).2 := by
  have hleft : capacity - sink.bytes.size = 0 := by omega
  obtain ⟨-, hseen, hroom, hflush⟩ := write_limited h.room text
  rw [hleft] at hseen hroom
  refine ⟨?_, ?_, hflush.trans h.flushFails⟩
  · have hnone : text.toUTF8.extract 0 0 = ByteArray.empty :=
      ByteArray.extract_eq_empty_iff.2 (Nat.min_le_left _ _)
    rw [hseen, hnone, ByteArray.append_empty, h.bytes]
  · rw [hroom, hleft, Nat.zero_sub]

/-- What no longer fits leaves a full sink as it is. -/
theorem Mirrors.append (h : Mirrors capacity flushFails sink seen)
    (hfull : ¬ sink.bytes.size ≤ capacity) {more : ByteArray}
    (hmore : sink'.bytes = sink.bytes ++ more) : Mirrors capacity flushFails sink' seen := by
  have hleft : capacity - sink.bytes.size = 0 := by omega
  have hsize : sink'.bytes.size = sink.bytes.size + more.size := by
    rw [hmore, ByteArray.size_append]
  refine ⟨?_, ?_, h.flushFails⟩
  · have hnone : more.extract 0 0 = ByteArray.empty :=
      ByteArray.extract_eq_empty_iff.2 (Nat.min_le_left _ _)
    rw [hmore, extract_append, hleft, hnone, ByteArray.append_empty, h.bytes]
  · rw [h.room, hsize]
    congr 1
    omega

end Sink

namespace TraceLog

/-- Nothing bounds what may be written, and passing it on does not fail. -/
structure Unlimited (log : TraceLog) : Prop where
  room : log.sink.room = none
  flush : log.sink.flush = true

/-- The second trace is the first one with something more, perhaps, written without a bound. -/
structure Continues (log log' : TraceLog) : Prop where
  unlimited : log'.Unlimited
  bytes : ∃ more, log'.sink.bytes = log.sink.bytes ++ more

/-- All that was written is no more than so many bytes. -/
def Fits (capacity : Nat) (log : TraceLog) : Prop := log.sink.bytes.size ≤ capacity

/-- A trace that gets the lines of another one, into a sink with room for `capacity` bytes. -/
structure Mirrors (capacity : Nat) (flushFails : Bool) (log seen : TraceLog) : Prop where
  sink : log.sink.Mirrors capacity flushFails seen.sink
  form : log.Fits capacity → seen.indent = log.indent ∧ seen.maxLineLength = log.maxLineLength

variable {capacity : Nat} {flushFails : Bool} {log log' log'' seen : TraceLog}

theorem Continues.refl (h : log.Unlimited) : log.Continues log :=
  ⟨h, ByteArray.empty, ByteArray.append_empty.symm⟩

theorem Continues.trans (h : log.Continues log') (h' : log'.Continues log'') :
    log.Continues log'' := by
  obtain ⟨more, hmore⟩ := h.bytes
  obtain ⟨more', hmore'⟩ := h'.bytes
  exact ⟨h'.unlimited, more ++ more', by rw [hmore', hmore, ByteArray.append_assoc]⟩

/-- What fits has fitted before. -/
theorem Continues.fits (h : log.Continues log') (hfits : log'.Fits capacity) :
    log.Fits capacity := by
  obtain ⟨more, hmore⟩ := h.bytes
  unfold Fits at hfits ⊢
  rw [hmore, ByteArray.size_append] at hfits
  omega

theorem Mirrors.continue (h : Mirrors capacity flushFails log seen) (hfull : ¬ log.Fits capacity)
    (hcontinues : log.Continues log') : Mirrors capacity flushFails log' seen := by
  obtain ⟨more, hmore⟩ := hcontinues.bytes
  exact ⟨h.sink.append hfull hmore, fun hfits => absurd (hcontinues.fits hfits) hfull⟩

/-- Before anything is written. -/
theorem into_mirrors (maxLineLength capacity : Nat) (flushFails : Bool) :
    Mirrors capacity flushFails (into .unlimited maxLineLength)
      (into ⟨[], some capacity, flushFails⟩ maxLineLength) := by
  have hbytes (room : Option Nat) (flushFails : Bool) :
      Sink.bytes ⟨[], room, flushFails⟩ = ByteArray.empty := rfl
  have hempty : ByteArray.empty.extract 0 capacity = ByteArray.empty :=
    Sink.extract_of_size_le (Nat.zero_le _)
  refine ⟨⟨?_, rfl, rfl⟩, fun _ => ⟨rfl, rfl⟩⟩
  unfold into Sink.unlimited
  rw [hbytes, hbytes, hempty]

theorem into_unlimited (maxLineLength : Nat) : (into .unlimited maxLineLength).Unlimited :=
  ⟨rfl, rfl⟩

theorem into_fits (maxLineLength capacity : Nat) :
    (into .unlimited maxLineLength).Fits capacity :=
  Nat.zero_le capacity

/-! ### Lines -/

/-- A way to write to a trace. Without a bound it succeeds. Under one it succeeds exactly if what it
writes still fits, and in each case the sink holds what it should. -/
structure Writes (write : TraceLog → Bool × TraceLog) : Prop where
  unlimited : ∀ log, log.Unlimited → (write log).1 = true ∧ log.Continues (write log).2
  limited : ∀ {capacity flushFails log seen}, log.Unlimited → log.Fits capacity →
    Mirrors capacity flushFails log seen →
    ((write seen).1 = true ↔ (write log).2.Fits capacity) ∧
      Mirrors capacity flushFails (write log).2 (write seen).2
  full : ∀ {capacity flushFails log seen}, ¬ log.Fits capacity →
    Mirrors capacity flushFails log seen → Mirrors capacity flushFails log (write seen).2

/-- Writing a line whose text depends on nothing but how much input a line may show. -/
theorem writes_line (line : TraceLog → String)
    (hline : ∀ log log', log.maxLineLength = log'.maxLineLength → line log = line log') :
    Writes fun log => log.writeLine (line log) where
  unlimited log h := by
    obtain ⟨hdone, hbytes, hroom, hflush⟩ := Sink.write_unlimited h.room
      (String.join (List.replicate log.indent "  ") ++ line log ++ "\n")
    refine ⟨hdone, ⟨hroom, ?_⟩, _, hbytes⟩
    exact (congrArg (!·) hflush).trans h.flush
  limited := by
    intro capacity flushFails log seen hunlimited hfits h
    obtain ⟨hindent, hlength⟩ := h.form hfits
    obtain ⟨hdone, hsink⟩ := h.sink.write hunlimited.room hfits
      (String.join (List.replicate log.indent "  ") ++ line log ++ "\n")
    unfold writeLine
    rw [hline seen log hlength, hindent]
    exact ⟨hdone, hsink, fun _ => ⟨rfl, hlength⟩⟩
  full hfull h := ⟨h.sink.write_full hfull _, h.form⟩

/-- Moving in before a line is written. -/
theorem Writes.moved {write : TraceLog → Bool × TraceLog} (h : Writes write) (f : Nat → Nat) :
    Writes fun log => write { log with indent := f log.indent } where
  unlimited log hlog := by
    obtain ⟨hdone, hcontinues⟩ := h.unlimited { log with indent := f log.indent }
      ⟨hlog.room, hlog.flush⟩
    exact ⟨hdone, hcontinues.unlimited, hcontinues.bytes⟩
  limited hunlimited hfits hm := h.limited ⟨hunlimited.room, hunlimited.flush⟩ hfits
    ⟨hm.sink, fun _ => ⟨congrArg f (hm.form hfits).1, (hm.form hfits).2⟩⟩
  full := by
    intro capacity flushFails log seen hfull hm
    have hmoved : Mirrors capacity flushFails log { seen with indent := f seen.indent } :=
      ⟨hm.sink, fun hfits => absurd hfits hfull⟩
    exact h.full hfull hmoved

theorem writes_tryInput (text : Slice) : Writes (tryInput · text) :=
  writes_line (fun log => s!"<try>{log.shown text}</try>") fun _ _ h => by rw [shown, shown, h]

theorem writes_success (text : Slice) : Writes (success · text) :=
  writes_line (fun log => s!"<success>{log.shown text}</success>") fun _ _ h => by
    rw [shown, shown, h]

theorem writes_fail : Writes fail := writes_line (fun _ => "<fail/>") fun _ _ _ => rfl

theorem writes_endRule (name : String) : Writes (endRule · name) :=
  (writes_line (fun _ => s!"</{name}>") fun _ _ _ => rfl).moved (· - 1)

/-- The trace moves in behind the line if the line was taken whole. -/
theorem beginRule_eq (log : TraceLog) (name : String) :
    log.beginRule name = ((log.writeLine s!"<{name}>").1, { (log.writeLine s!"<{name}>").2 with
      indent := (log.writeLine s!"<{name}>").2.indent +
        (log.writeLine s!"<{name}>").1.toNat }) := by
  unfold beginRule
  obtain ⟨done, log'⟩ := log.writeLine s!"<{name}>"
  cases done <;> rfl

theorem writes_beginRule (name : String) : Writes (beginRule · name) := by
  have hline : Writes fun log => log.writeLine s!"<{name}>" :=
    writes_line (fun _ => s!"<{name}>") fun _ _ _ => rfl
  refine ⟨fun log hlog => ?_, ?_, ?_⟩
  · obtain ⟨hdone, hcontinues⟩ := hline.unlimited log hlog
    rw [beginRule_eq]
    exact ⟨hdone, ⟨hcontinues.unlimited.room, hcontinues.unlimited.flush⟩, hcontinues.bytes⟩
  · intro capacity flushFails log seen hlog hfits h
    obtain ⟨hdone, hmirrors⟩ := hline.limited hlog hfits h
    have htaken : (log.writeLine s!"<{name}>").1 = true := (hline.unlimited log hlog).1
    rw [beginRule_eq, beginRule_eq]
    refine ⟨hdone, hmirrors.sink, fun hfits' => ?_⟩
    obtain ⟨hindent, hlength⟩ := hmirrors.form hfits'
    have hseen : (seen.writeLine s!"<{name}>").1 = true := hdone.2 hfits'
    refine ⟨?_, hlength⟩
    dsimp only
    rw [hindent, htaken, hseen]
  · intro capacity flushFails log seen hfull h
    rw [beginRule_eq]
    exact ⟨(hline.full hfull h).sink, fun hfits => absurd hfits hfull⟩

end TraceLog

end AttrGrammar.Scan
