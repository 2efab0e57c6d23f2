import UnifiedPatch.Proofs.SpliceSkip

/-!
# What a hunk has done that is not reported

The numbers of a header are bounds, not promises. The lines behind it are taken
up to the first that is none of a body, or that would be one more than the
header says on a side (`Hunk.accounted`). If the patch ends before, or a line of
another kind comes, the hunk is done all the same, with as much read and written
as the lines taken say. So a hunk has read and written what its header says
exactly if there are as many lines as it says (`Hunk.Complete`), and this is a
matter of the text alone.

A step in a body takes the next line that is accounted for, or leaves the body,
or fails the hunk, which is reported later (`Turn`). A hunk that is not reported
has therefore taken all of them, one line a step, and the machine is known after
each (`Follows`).

One line needs a word of its own. The bound of the result is looked at when the
line of the source is already read, so it can happen that a line of context is
found and there is no room left to write it (`Hunk.unkept`). It is then the line
behind those that are accounted for, and the body is not complete.
-/

namespace UnifiedPatch

namespace Hunk

/-- No more lines were met than the header says. -/
def Room (hunk : Hunk) (seen : Tally) : Prop :=
  seen.source ≤ hunk.old.count ∧ seen.result ≤ hunk.new.count

instance (hunk : Hunk) (seen : Tally) : Decidable (hunk.Room seen) :=
  inferInstanceAs (Decidable (_ ∧ _))

/-- The lines of a body that the header accounts for, with those that were
met before. -/
def accounted (hunk : Hunk) (reverse : Bool) (seen : Tally) :
    List Line → List BodyLine
  | [] => []
  | line :: more =>
      match BodyLine.ofLine? reverse line with
      | none => []
      | some b =>
          if hunk.Room (seen.count b.role) then
            b :: accounted hunk reverse (seen.count b.role) more
          else []

/-- The line behind them, if it is context that only the old range has
room for. -/
def unkept (hunk : Hunk) (reverse : Bool) (seen : Tally) : List Line → List Line
  | [] => []
  | line :: more =>
      match BodyLine.ofLine? reverse line with
      | none => []
      | some b =>
          if hunk.Room (seen.count b.role) then unkept hunk reverse
            (seen.count b.role) more
          else if b.role = .context ∧
            seen.source < hunk.old.count then [b.content]
          else []

/-- The lines behind a header are as many as it says. -/
def Complete (hunk : Hunk) (reverse : Bool) (lines : List Line) : Prop :=
  (sourceSide (hunk.accounted reverse {} lines)).length = hunk.old.count ∧
    (resultSide (hunk.accounted reverse {} lines)).length = hunk.new.count

instance (hunk : Hunk) (reverse : Bool) (lines : List Line) :
    Decidable (hunk.Complete reverse lines) :=
  inferInstanceAs (Decidable (_ ∧ _))

variable {hunk : Hunk} {reverse : Bool} {seen : Tally} {line : Line}
  {more : List Line} {b : BodyLine}

theorem accounted_of_room (hread : BodyLine.ofLine? reverse line = some b)
    (hroom : hunk.Room (seen.count b.role)) :
    hunk.accounted reverse seen (line :: more) =
      b :: hunk.accounted reverse (seen.count b.role) more := by
  simp only [accounted, hread, if_pos hroom]

theorem unkept_of_room (hread : BodyLine.ofLine? reverse line = some b)
    (hroom : hunk.Room (seen.count b.role)) :
    hunk.unkept reverse seen (line :: more) =
      hunk.unkept reverse (seen.count b.role) more := by
  simp only [unkept, hread, if_pos hroom]

theorem accounted_of_full (hread : BodyLine.ofLine? reverse line = some b)
    (hfull : ¬ hunk.Room (seen.count b.role)) :
    hunk.accounted reverse seen (line :: more) = [] := by
  simp only [accounted, hread, if_neg hfull]

theorem unkept_of_full (hread : BodyLine.ofLine? reverse line = some b)
    (hfull : ¬ hunk.Room (seen.count b.role)) :
    hunk.unkept reverse seen (line :: more) =
      if b.role = .context ∧ seen.source < hunk.old.count then [b.content]
      else [] := by
  simp only [unkept, hread, if_neg hfull]

/-- Behind a complete old range there is no room for a line of context on
either side. -/
theorem unkept_eq_nil {lines : List Line}
    (h : seen.source + (sourceSide (hunk.accounted reverse seen lines)).length =
      hunk.old.count) : hunk.unkept reverse seen lines = [] := by
  fun_induction unkept hunk reverse seen lines with
  | case1 => rfl
  | case2 => rfl
  | case3 seen line more b hread hroom ih =>
      refine ih ?_
      rw [accounted_of_room hread hroom, sourceSide_cons] at h
      cases hrole : b.role <;> simp [hrole, Tally.count] at h ⊢ <;> omega
  | case4 seen line more b hread hfull hlost =>
      rw [accounted_of_full hread hfull] at h
      simp only [sourceSide_nil, List.length_nil] at h
      omega
  | case5 => rfl

theorem Complete.unkept_eq_nil {lines : List Line}
    (h : hunk.Complete reverse lines) :
    hunk.unkept reverse {} lines = [] :=
  Hunk.unkept_eq_nil ((Nat.zero_add _).trans h.1)

end Hunk

/-- Whether the machine is in the body of a hunk. -/
def Phase.isBody : Phase → Bool
  | body .. => true
  | _ => false

namespace Splice

variable {settings : Settings} {name : Bytes} {hunk : Hunk} {ends seen : Tally}
  {s s' : Splice}

/-! ## A failed hunk is reported -/

theorem Move.mem_transcript {e : Event} (h : Move settings name s s')
    (he : e ∈ s.transcript) :
    e ∈ s'.transcript := by
  cases h <;> simp_all [enterBody, stop, fail, say]

theorem mem_transcript_run (settings : Settings) (name : Bytes) {e : Event}
    (he : e ∈ s.transcript) : e ∈ (s.run settings name).transcript := by
  fun_induction run settings name s with
  | case1 s hlive ih =>
      exact ih ((move_step settings name hlive).mem_transcript he)
  | case2 => exact he

/-- The rest of a failed hunk is passed over until the hunk is reported. -/
theorem Move.of_isSkipping (h : Move settings name s s')
    (hs : s.isSkipping = true) :
    (s'.isSkipping = true ∧ s'.hunks = s.hunks) ∨
      Event.notice (.hunkFailed s.hunks s.offset) ∈ s'.transcript := by
  cases h with
  | skipped phase ready read room room' => exact .inl ⟨rfl, rfl⟩
  | skippingLeft phase back line => exact .inr (by simp [fail, say])
  | noHeader phase | overlong phase | header phase | whole phase | behind phase
  | copied phase
  | short phase | bodyLeft phase | inserted phase | deleted phase | kept phase
  | contextLeft phase | passed phase | missed phase | flushed phase
  | dropped phase =>
      simp [isSkipping, phase] at hs

theorem reported_of_isSkipping (settings : Settings) (name : Bytes)
    (hs : s.isSkipping = true) :
    ∃ line, Event.notice
      (.hunkFailed s.hunks line) ∈ (s.run settings name).transcript := by
  fun_induction run settings name s with
  | case1 s hlive ih =>
      rcases (move_step settings name hlive).of_isSkipping hs with
        ⟨hnext, hsame⟩ | hsaid
      · rw [← hsame]
        exact ih hnext
      · exact ⟨s.offset, mem_transcript_run settings name hsaid⟩
  | case2 s hlive => exact absurd (isLive_of_isSkipping hs) hlive

/-! ## One turn of a body -/

/-- A machine in a body, with as many lines left to each bound as are not
accounted for. -/
structure Inside (hunk : Hunk) (ends seen : Tally) (s : Splice) : Prop where
  phase : s.phase = .body hunk ends seen
  cursor : s.cursor + hunk.old.count = ends.source + seen.source
  emitted : s.emitted + hunk.new.count = ends.result + seen.result
  room : hunk.Room seen

/-- The machine behind a body: the lines of `unkept` were read as well. -/
def behind (s : Splice) (hunk : Hunk) (ends seen : Tally) (body : List BodyLine)
    (unkept : List Line) (patch : LineStream) : Splice :=
  { s.past hunk ends seen body with
    patch
    source := s.source.skip ((sourceSide body).length + unkept.length)
    cursor := s.cursor + (sourceSide body).length + unkept.length
    phase := .header }

/-- What one step in a body can lead to, if every line is to be found. -/
inductive Turn (settings : Settings) (hunk : Hunk) (ends seen : Tally)
    (s : Splice) : Splice → Prop where
  /-- the next line is accounted for -/
  | taken {line : Line} {rest : List Line} {b : BodyLine}
      (ready : s.patch.ready = line :: rest)
      (read : BodyLine.ofLine? settings.reverse line = some b)
      (room : hunk.Room (seen.count b.role))
      (found : sourceSide [b] <+: s.source.ready) :
      Turn settings hunk ends seen s (s.past hunk ends seen [b])
  /-- no further line is -/
  | left {patch : LineStream} (back : patch.ready = restoreFirst s.patch.ready)
      (none : hunk.accounted settings.reverse seen s.patch.ready = [])
      (found : hunk.unkept settings.reverse seen s.patch.ready <+:
        s.source.ready) :
      Turn settings hunk ends seen s (s.behind hunk ends seen []
        (hunk.unkept settings.reverse seen s.patch.ready) patch)
  /-- a line is not found -/
  | failed {s' : Splice} (skipping : s'.isSkipping = true)
      (same : s'.hunks = s.hunks) :
      Turn settings hunk ends seen s s'

/-- A line that meets no bound is accounted for. -/
theorem Inside.room_of_ne {role : Role} (h : Inside hunk ends seen s)
    (hsource : role.inSource = true → s.cursor ≠ ends.source)
    (hresult : role.inResult = true → s.emitted ≠ ends.result) :
    hunk.Room (seen.count role) := by
  obtain ⟨-, hcursor, hemitted, hold, hnew⟩ := h
  unfold Hunk.Room
  cases role <;> simp [Tally.count] at hsource hresult ⊢ <;> omega

/-- Where the next line is none of a body, or meets the first bound that is
looked at, no further line is accounted for, and none is read. -/
theorem Inside.none_of_bound (h : Inside hunk ends seen s)
    (hline : ∀ line ∈ s.patch.ready.head?, ∀ b,
      BodyLine.ofLine? settings.reverse line = some b →
        if b.role = .insertion then s.emitted = ends.result
        else s.cursor = ends.source) :
    hunk.accounted settings.reverse seen s.patch.ready = [] ∧
      hunk.unkept settings.reverse seen s.patch.ready = [] := by
  obtain ⟨-, hcursor, hemitted, -⟩ := h
  cases ready : s.patch.ready with
  | nil => exact ⟨rfl, rfl⟩
  | cons line rest =>
      cases read : BodyLine.ofLine? settings.reverse line with
      | none => simp [Hunk.accounted, Hunk.unkept, read]
      | some b =>
          have hbound := hline line (by simp [ready]) b read
          have hfull : ¬ hunk.Room (seen.count b.role) := by
            unfold Hunk.Room
            cases hrole : b.role <;> simp [hrole, Tally.count] at hbound ⊢ <;>
              omega
          refine ⟨Hunk.accounted_of_full read hfull, ?_⟩
          rw [Hunk.unkept_of_full read hfull, if_neg]
          rintro ⟨hcontext, hlater⟩
          rw [hcontext, if_neg (by decide)] at hbound
          omega

theorem Move.turn (h : Move settings name s s') (hin : Inside hunk ends seen s)
    (hskip : settings.skipApplied = false) :
    Turn settings hunk ends seen s s' := by
  have hphase := hin.phase
  cases h with
  | @bodyLeft hunk' ends' seen' p phase back line =>
      obtain ⟨rfl, rfl, rfl⟩ := Phase.body.inj (hphase.symm.trans phase)
      obtain ⟨hnone, hunread⟩ := hin.none_of_bound line
      have hturn : Turn settings hunk ends seen s _ :=
        .left back hnone (by rw [hunread]; exact List.nil_prefix)
      rw [hunread] at hturn
      exact hturn
  | @contextLeft hunk' ends' seen' line rest more b p phase ready read role room
      found full back =>
      obtain ⟨rfl, rfl, rfl⟩ := Phase.body.inj (hphase.symm.trans phase)
      obtain ⟨-, hcursor, hemitted, hold, -⟩ := hin
      -- The new range is complete and the old one is not, so this is the line
      -- of `unkept`.
      have hfull : ¬ hunk.Room (seen.count b.role) := by
        simp only [Hunk.Room, role, Tally.count, Role.inResult_context,
          Bool.toNat_true]
        omega
      have hlost : hunk.unkept settings.reverse seen s.patch.ready =
          [b.content] := by
        rw [ready, Hunk.unkept_of_full read hfull, if_pos ⟨role, by omega⟩]
      have hturn : Turn settings hunk ends seen s _ :=
        .left back (by rw [ready, Hunk.accounted_of_full read hfull])
          (by rw [hlost, found]; exact ⟨more, rfl⟩)
      rw [hlost] at hturn
      exact hturn
  | @inserted hunk' ends' seen' line rest b phase ready read role room =>
      obtain ⟨rfl, rfl, rfl⟩ := Phase.body.inj (hphase.symm.trans phase)
      have hnext : hunk.Room (seen.count b.role) :=
        hin.room_of_ne (by simp [role]) fun _ => room
      have hturn : Turn settings hunk ends seen s _ :=
        .taken ready read hnext (by simp [sourceSide_cons, role])
      rw [past, sourceSide_cons, resultSide_cons, Tally.plus_cons] at hturn
      simpa [role] using hturn
  | @deleted hunk' ends' seen' line rest more b phase ready read role
      room found =>
      obtain ⟨rfl, rfl, rfl⟩ := Phase.body.inj (hphase.symm.trans phase)
      have hnext : hunk.Room (seen.count b.role) :=
        hin.room_of_ne (fun _ => room) (by simp [role])
      have hturn : Turn settings hunk ends seen s _ :=
        .taken ready read hnext (by simp [sourceSide_cons, role, found])
      rw [past, sourceSide_cons, resultSide_cons, Tally.plus_cons] at hturn
      simpa [role] using hturn
  | @kept hunk' ends' seen' line rest more b phase ready read role room
      found room' =>
      obtain ⟨rfl, rfl, rfl⟩ := Phase.body.inj (hphase.symm.trans phase)
      have hnext : hunk.Room (seen.count b.role) :=
        hin.room_of_ne (fun _ => room) fun _ => room'
      have hturn : Turn settings hunk ends seen s _ :=
        .taken ready read hnext (by simp [sourceSide_cons, role, found])
      rw [past, sourceSide_cons, resultSide_cons, Tally.plus_cons] at hturn
      simpa [role] using hturn
  | missed phase ready read role room missed skip => exact .failed rfl rfl
  | passed phase ready read role room missed skip =>
      exact absurd (hskip.symm.trans skip) (by simp)
  | noHeader phase | overlong phase | header phase | whole phase | behind phase
  | copied phase
  | short phase | skippingLeft phase | skipped phase | flushed phase
  | dropped phase =>
      exact absurd (hphase.symm.trans phase) (by simp)

/-! ## The whole body -/

theorem Inside.past {b : BodyLine} (h : Inside hunk ends seen s)
    (hroom : hunk.Room (seen.count b.role)) :
    Inside hunk ends (seen.count b.role) (s.past hunk ends seen [b]) := by
  obtain ⟨-, hcursor, hemitted, -⟩ := h
  refine ⟨by rw [Splice.past, Tally.plus_cons]; rfl, ?_, ?_, hroom⟩
  · simp only [Splice.past, sourceSide_cons]
    cases b.role <;> simp [Tally.count] <;> omega
  · simp only [Splice.past, resultSide_cons]
    cases b.role <;> simp [Tally.count] <;> omega

theorem past_cons (hunk : Hunk) (ends seen : Tally) (b : BodyLine)
    (body : List BodyLine) :
    (s.past hunk ends seen [b]).past hunk ends (seen.count b.role) body =
      s.past hunk ends seen (b :: body) := by
  have hpast := past_past (s := s) hunk ends seen [b] body
  rwa [Tally.plus_cons, Tally.plus_nil, List.singleton_append] at hpast

/-- The machine goes along a body from `s` on: it takes the lines of `body`, one
in each step, and leaves in the step after them. The source has the lines that
are read. -/
structure Follows (settings : Settings) (name : Bytes) (hunk : Hunk)
    (ends seen : Tally) (body : List BodyLine) (unkept : List Line)
    (s : Splice) : Prop where
  found : sourceSide body ++ unkept <+: s.source.ready
  taken : ∀ i ≤ body.length,
    s.steps settings name i = s.past hunk ends seen (body.take i)
  left : ∃ patch : LineStream,
    patch.ready = restoreFirst (s.patch.ready.drop body.length) ∧
    s.steps settings name (body.length + 1) =
      s.behind hunk ends seen body unkept patch

theorem past_behind (b : BodyLine) (body : List BodyLine) (unkept : List Line)
    (patch : LineStream) :
    (s.past hunk ends seen [b]).behind hunk ends (seen.count b.role) body
      unkept patch =
      s.behind hunk ends seen (b :: body) unkept patch := by
  have hlength : (sourceSide (b :: body)).length =
      (sourceSide [b]).length + (sourceSide body).length := by
    rw [← List.singleton_append, sourceSide_append, List.length_append]
  rw [behind, past_cons, behind, hlength]
  simp only [Splice.past, LineStream.skip_skip, Nat.add_assoc]

theorem Follows.nil {unkept : List Line} {patch : LineStream}
    (hphase : s.phase = .body hunk ends seen)
    (hfound : unkept <+: s.source.ready)
    (hback : patch.ready = restoreFirst s.patch.ready)
    (hstep : s.step settings name = s.behind hunk ends seen [] unkept patch) :
    Follows settings name hunk ends seen [] unkept s := by
  refine ⟨hfound, fun i hi => ?_, patch, hback, hstep⟩
  obtain rfl : i = 0 := Nat.le_zero.1 hi
  exact (past_nil hphase).symm

theorem Follows.cons {b : BodyLine} {body : List BodyLine} {unkept : List Line}
    (hphase : s.phase = .body hunk ends seen)
    (hfound : sourceSide [b] <+: s.source.ready)
    (hstep : s.step settings name = s.past hunk ends seen [b])
    (h : Follows settings name hunk ends (seen.count b.role) body unkept
      (s.past hunk ends seen [b])) :
    Follows settings name hunk ends seen (b :: body) unkept s := by
  have hsteps : ∀ n, s.steps settings name (n + 1) =
      (s.past hunk ends seen [b]).steps settings name n := by
    intro n
    rw [Nat.add_comm, steps_add, steps_succ, steps_zero, hstep]
  refine ⟨?_, fun i hi => ?_, ?_⟩
  · obtain ⟨more, hmore⟩ := hfound
    have hrest := h.found
    simp only [Splice.past, LineStream.ready_skip, ← hmore,
      List.drop_left] at hrest
    rw [← hmore, ← List.singleton_append, sourceSide_append, List.append_assoc]
    exact (List.prefix_append_right_inj _).2 hrest
  · cases i with
    | zero => exact (past_nil hphase).symm
    | succ i =>
        rw [hsteps, h.taken i (Nat.le_of_succ_le_succ hi), past_cons,
          List.take_succ_cons]
  · obtain ⟨patch, hback, hleft⟩ := h.left
    refine ⟨patch, ?_, ?_⟩
    · rw [hback, Splice.past, LineStream.ready_skip, List.drop_drop]
      simp [Nat.add_comm]
    · rw [List.length_cons, hsteps, hleft, past_behind]

/-- In a body where every line is to be found, the lines that the header
accounts for are taken, unless the hunk is reported. -/
theorem follows_of_unreported (hskip : settings.skipApplied = false)
    (hin : Inside hunk ends seen s)
    (hquiet : ∀ line, Event.notice (.hunkFailed s.hunks line) ∉
      (s.run settings name).transcript) :
    Follows settings name hunk ends seen
      (hunk.accounted settings.reverse seen s.patch.ready)
      (hunk.unkept settings.reverse seen s.patch.ready) s := by
  fun_induction run settings name s generalizing seen with
  | case1 s hlive ih =>
      generalize hstep : s.step settings name = s' at ih hquiet
      have hmove := move_step settings name hlive
      rw [hstep] at hmove
      cases hmove.turn hin hskip with
      | left back none found =>
          rw [none]
          exact .nil hin.phase found back hstep
      | @taken line rest b ready read room found =>
          rw [ready, Hunk.accounted_of_room read room,
            Hunk.unkept_of_room read room]
          refine .cons hin.phase found hstep ?_
          have hrest := ih (hin.past room) hquiet
          rwa [show (s.past hunk ends seen [b]).patch.ready =
            rest by simp [past, ready]] at hrest
      | failed skipping same =>
          -- The rest of the run passes the hunk over and reports it.
          obtain ⟨line, hline⟩ := reported_of_isSkipping settings name skipping
          rw [same] at hline
          exact absurd hline (hquiet line)
  | case2 s hlive => simp [hin.phase, Phase.isLive] at hlive

/-- What is read as context is written, by the same step. -/
theorem Follows.kept {body : List BodyLine} {unkept : List Line} {i : Nat}
    {b : BodyLine} (h : Follows settings name hunk ends seen body unkept s)
    (hb : body[i]? = some b) (hcontext : b.role = .context) :
    (s.steps settings name i).source.ready =
        b.content :: (s.steps settings name (i + 1)).source.ready ∧
      (s.steps settings name (i + 1)).written =
        (s.steps settings name i).written.push b.content := by
  obtain ⟨hi, -⟩ := List.getElem?_eq_some_iff.1 hb
  have htake : body.take (i + 1) = body.take i ++ [b] := by
    rw [List.take_add_one, hb, Option.toList_some]
  have hnext : s.steps settings name (i + 1) =
      (s.steps settings name i).past hunk ends
        (seen.plus (body.take i)) [b] := by
    rw [h.taken (i + 1) hi, h.taken i (Nat.le_of_lt hi), htake, past_past]
  have hread : sourceSide [b] = [b.content] := by
    simp [sourceSide_cons, hcontext]
  have hfound : [b.content] <+: (s.steps settings name i).source.ready := by
    obtain ⟨more, hmore⟩ := h.found
    rw [← List.take_append_drop (i + 1) body, htake, sourceSide_append,
      sourceSide_append, hread] at hmore
    rw [h.taken i (Nat.le_of_lt hi), past, LineStream.ready_skip, ← hmore]
    simp
  obtain ⟨more, hmore⟩ := hfound
  rw [hnext, past, hread]
  refine ⟨?_, ?_⟩
  · simp [← hmore]
  · simp [resultSide_cons, hcontext]

/-! ## All hunks of a run -/

/-- The body that begins at `s` is left with the last of `n` steps. -/
structure Leaves (settings : Settings) (name : Bytes) (s : Splice) (n : Nat) :
    Prop where
  inside : ∀ i < n, (s.steps settings name i).phase.isBody = true
  outside : (s.steps settings name n).phase = .header

theorem Follows.leaves {body : List BodyLine} {unkept : List Line}
    (h : Follows settings name hunk ends seen body unkept s) :
    Leaves settings name s (body.length + 1) := by
  refine ⟨fun i hi => ?_, ?_⟩
  · rw [h.taken i (Nat.le_of_lt_succ hi)]
    rfl
  · obtain ⟨patch, -, hleft⟩ := h.left
    rw [hleft]
    rfl

/-- A run that is not given up is not given up at any step. -/
theorem failure?_steps_of_run (hfine : (s.run settings name).failure? = none)
    (n : Nat) :
    (s.steps settings name n).failure? = none := by
  cases hstop : (s.steps settings name n).failure? with
  | none => rfl
  | some why =>
      rw [← run_steps settings name n s,
        run_of_not_isLive settings name (isLive_of_failure? hstop),
        hstop] at hfine
      exact absurd hfine (by simp)

theorem Move.hunks_eq (h : Move settings name s s') :
    s'.hunks = s.hunks ∨ s'.hunks = s.hunks + 1 ∧
      ∃ hunk, s'.phase = .leading hunk := by
  cases h with
  | header phase ready read => exact .inr ⟨rfl, _, rfl⟩
  | _ => exact .inl rfl

/-- Every hunk that is counted is met at some step. -/
theorem exists_leading_of_hunks (n : Nat) {k : Nat} (hlow : s.hunks < k)
    (hhigh : k ≤ (s.steps settings name n).hunks) :
    ∃ m hunk, (s.steps settings name m).phase = .leading hunk ∧
      (s.steps settings name m).hunks = k := by
  induction n with
  | zero => exact absurd hhigh (Nat.not_le.2 hlow)
  | succ n ih =>
      by_cases hbefore : k ≤ (s.steps settings name n).hunks
      · exact ih hbefore
      · rw [steps_succ] at hhigh
        rcases step_eq_or_move settings name (s.steps settings name n) with
          hend | hmove
        · rw [hend] at hhigh
          exact absurd hhigh hbefore
        · rcases hmove.hunks_eq with hsame | ⟨hone, hunk, hphase⟩
          · omega
          · exact ⟨n + 1, hunk, hphase, by rw [steps_succ]; omega⟩

theorem inside_of_leading (hphase : s.phase = .leading hunk)
    (hfine : (s.step settings name).failure? = none) :
    Inside hunk
      { source := (s.step settings name).cursor + hunk.old.count
        result := (s.step settings name).emitted + hunk.new.count } {}
      (s.step settings name) := by
  obtain ⟨t, ht, -⟩ := exists_enterBody hphase hfine
  rw [ht]
  exact ⟨rfl, rfl, rfl, Nat.zero_le _, Nat.zero_le _⟩

/-- On every patch and every source, with every line to be found and the work
not given up: every hunk that is counted is met; and one that is not reported,
if no line of context is behind its lines that only the old range has room
for, goes along the lines that its header accounts for, one in each step, and
writes what it reads as context. Then it has read and written as many lines as
its header says exactly if there are so many, and then there is no such line
of context. -/
theorem unreported_follows (settings : Settings) (name : Bytes)
    (patch : LineStream) (source : Bytes) (hskip : settings.skipApplied = false)
    (hfine : ((start patch (.ofBytes source)).run settings name).failure? =
      none) :
    (∀ k, 0 < k →
      k ≤ ((start patch (.ofBytes source)).run settings name).hunks →
      ∃ m hunk, (course settings name patch source m).phase = .leading hunk ∧
        (course settings name patch source m).hunks = k) ∧
    ∀ m hunk s body,
      (course settings name patch source m).phase = .leading hunk →
      course settings name patch source (m + 1) = s →
      hunk.accounted settings.reverse {} s.patch.ready = body →
      (∀ line, Event.notice (.hunkFailed s.hunks line) ∉
        ((start patch (.ofBytes source)).run settings name).transcript) →
      (hunk.Complete settings.reverse s.patch.ready →
        hunk.unkept settings.reverse {} s.patch.ready = []) ∧
      (hunk.unkept settings.reverse {} s.patch.ready = [] →
        Follows settings name hunk
          { source := s.cursor + hunk.old.count
            result := s.emitted + hunk.new.count } {} body []
          s ∧
        Leaves settings name s (body.length + 1) ∧
        (∀ i b, body[i]? = some b → b.role = .context →
          (s.steps settings name i).source.ready =
              b.content :: (s.steps settings name (i + 1)).source.ready ∧
            (s.steps settings name (i + 1)).written =
              (s.steps settings name i).written.push b.content) ∧
        ((s.steps settings name (body.length + 1)).cursor =
          s.cursor + hunk.old.count ∧
            (s.steps settings name (body.length + 1)).emitted =
              s.emitted + hunk.new.count ↔
          hunk.Complete settings.reverse s.patch.ready)) := by
  refine ⟨fun k hpos hle => ?_, ?_⟩
  · obtain ⟨last, hlast⟩ :=
      exists_steps_eq_run settings name (start patch (.ofBytes source))
    rw [hlast] at hle
    exact exists_leading_of_hunks last hpos hle
  · rintro m hunk s body hphase rfl rfl hquiet
    refine ⟨Hunk.Complete.unkept_eq_nil, fun hnone => ?_⟩
    have hin := inside_of_leading hphase (failure?_steps_of_run hfine (m + 1))
    rw [← run_steps settings name (m + 1)] at hquiet
    have hfollows := follows_of_unreported hskip hin hquiet
    rw [show (course settings name patch source m).step settings name =
      course settings name patch source (m + 1) from rfl, hnone] at hfollows
    refine ⟨hfollows, hfollows.leaves,
      fun i b hb hcontext => hfollows.kept hb hcontext, ?_⟩
    obtain ⟨p, -, hleft⟩ := hfollows.left
    rw [hleft]
    simp only [behind, past, List.length_nil, Nat.add_zero,
      Nat.add_left_cancel_iff]
    exact Iff.rfl

/-- A hunk whose body is one line short, and one behind it. -/
def cutShort : Bytes := Bytes.ascii "@@ -1,2 +1,2 @@\n a\n@@ -2 +2 @@\n-b\n+c\n"

theorem transcript_run_cutShort :
    ((start (.ofBytes cutShort) (.ofBytes (Bytes.ascii "a\nb\n"))).run
      { directory := ⟨.working, []⟩ } []).transcript =
      #[.remark (.hunksDone [] 2 0 2)] := by
  decide +kernel

/-- Two hunks are counted: the first takes the one line that it has, and the
second is complete. -/
theorem unreported_follows_cutShort :
    (∃ m hunk,
      (course { directory := ⟨.working, []⟩ } [] (.ofBytes cutShort)
        (Bytes.ascii "a\nb\n")
          m).phase = .leading hunk ∧
        (course { directory := ⟨.working, []⟩ } [] (.ofBytes cutShort)
          (Bytes.ascii "a\nb\n")
          m).hunks = 2) ∧
      Leaves { directory := ⟨.working, []⟩ } []
        (course { directory := ⟨.working, []⟩ } [] (.ofBytes cutShort)
          (Bytes.ascii "a\nb\n") 2)
        2 ∧
      (course { directory := ⟨.working, []⟩ } [] (.ofBytes cutShort)
        (Bytes.ascii "a\nb\n")
          9).cursor =
        (course { directory := ⟨.working, []⟩ } [] (.ofBytes cutShort)
          (Bytes.ascii "a\nb\n")
          6).cursor + 1 := by
  obtain ⟨hcounted, hhunks⟩ := unreported_follows
    { directory := ⟨.working, []⟩ } []
    (.ofBytes cutShort) (Bytes.ascii "a\nb\n") rfl (by decide +kernel)
  have hfirst := hhunks 1 ⟨⟨1, 2⟩, ⟨1, 2⟩⟩ _
    [⟨.context, Bytes.ascii "a\n", Bytes.ascii " a\n"⟩]
    (by decide +kernel) rfl (by decide +kernel)
      (by simp [transcript_run_cutShort])
  have hsecond := hhunks 5 ⟨⟨2, 1⟩, ⟨2, 1⟩⟩ _
    [⟨.deletion, Bytes.ascii "b\n", Bytes.ascii "-b\n"⟩,
      ⟨.insertion, Bytes.ascii "c\n", Bytes.ascii "+c\n"⟩]
    (by decide +kernel) rfl (by decide +kernel)
      (by simp [transcript_run_cutShort])
  exact ⟨hcounted 2 (by decide) (by decide +kernel),
    (hfirst.2 (by decide +kernel)).2.1,
    ((hsecond.2 (by decide +kernel)).2.2.2.2 (by decide +kernel)).1⟩

/-- A hunk that is one line short is not reported, and it has not read and
written as many lines as its header says. -/
theorem not_forall_unreported_complete :
    ¬ ∀ (settings : Settings) (name : Bytes) (patch : LineStream)
      (source : Bytes),
      settings.skipApplied = false →
      ((start patch (.ofBytes source)).run settings name).failure? = none →
      ∀ m n hunk s,
        (course settings name patch source m).phase = .leading hunk →
        course settings name patch source (m + 1) = s →
        (∀ line, Event.notice (.hunkFailed s.hunks line) ∉
          ((start patch (.ofBytes source)).run settings name).transcript) →
        Leaves settings name s n →
        (s.steps settings name n).cursor = s.cursor + hunk.old.count ∧
          (s.steps settings name n).emitted = s.emitted + hunk.new.count := by
  intro h
  have hfirst := h { directory := ⟨.working, []⟩ } [] (.ofBytes cutShort)
    (Bytes.ascii "a\nb\n")
    rfl (by decide +kernel) 1 2 ⟨⟨1, 2⟩, ⟨1, 2⟩⟩ _ (by decide +kernel) rfl
    (by simp [transcript_run_cutShort]) ⟨by decide +kernel, by decide +kernel⟩
  exact absurd hfirst (by decide +kernel)

end Splice

end UnifiedPatch
