import CodeStory.Stdio.Transport

/-!
# Lines of stdin

The lines of an input, and what the transport makes of them. A future that has taken bytes of
a line off stdin carries them in its local state; when `select!` drops it, they are gone. In
the runs in which only futures that have taken nothing are dropped, the frames are the lines.
-/

set_option autoImplicit false

namespace CodeStory.Stdio

open Transition

/-- The input cut after each newline; a last piece without one stands for itself. -/
def segments : Bytes → List Bytes
  | [] => []
  | b :: bytes =>
    if b = newline then [b] :: segments bytes
    else
      match segments bytes with
      | [] => [[b]]
      | segment :: rest => (b :: segment) :: rest

/-- The frame that a line has to be delivered as. -/
def frameOf (segment : Bytes) : StdioFrame :=
  if segment.length > stdioMaxFrameBytes then .tooLarge segment.length else .line segment

section Segments
variable {p rest : Bytes}

theorem segments_terminated (hp : newline ∉ p) :
    segments (p ++ newline :: rest) = (p ++ [newline]) :: segments rest := by
  induction p with
  | nil => simp [segments]
  | cons b p ih =>
    have hb : b ≠ newline := fun h => hp (h ▸ List.mem_cons_self)
    have htail : newline ∉ p := fun h => hp (List.mem_cons_of_mem _ h)
    simp only [List.cons_append, segments, if_neg hb, ih htail]

theorem segments_unterminated (hp : newline ∉ p) (hne : p ≠ []) : segments p = [p] := by
  induction p with
  | nil => exact absurd rfl hne
  | cons b p ih =>
    have hb : b ≠ newline := fun h => hp (h ▸ List.mem_cons_self)
    have htail : newline ∉ p := fun h => hp (List.mem_cons_of_mem _ h)
    cases p with
    | nil => simp [segments, hb]
    | cons c p =>
      have hrest := ih htail (by simp)
      rw [segments, if_neg hb, hrest]

end Segments

/-- The bytes of the current line that a future has taken off stdin are `p`. -/
def ReadFuture.Carries (p : Bytes) : ReadFuture → Prop
  | .line l => l = p ∧ p.length ≤ stdioMaxFrameBytes
  | .tail counted => counted = p.length ∧ p.length > stdioMaxFrameBytes

def Stdin.bytes (stdin : Stdin) : Bytes := stdin.buffer ++ stdin.chunks.flatten

/-- Every read brings something. -/
def Stdin.Plain (stdin : Stdin) : Prop := ∀ chunk ∈ stdin.chunks, chunk ≠ []

namespace Stdin
variable {stdin : Stdin}

theorem bytes_fillBuf : stdin.fillBuf.bytes = stdin.bytes := by
  unfold fillBuf bytes
  split
  · rename_i chunk chunks hbuffer hchunks
    rw [hbuffer, hchunks]
    rfl
  · rfl

theorem Plain.fillBuf (h : stdin.Plain) : stdin.fillBuf.Plain := by
  unfold Stdin.fillBuf
  split
  · rename_i chunk chunks _ hchunks
    intro c hc
    exact h c (by rw [hchunks]; exact List.mem_cons_of_mem _ hc)
  · exact h

/-- The end of stdin is seen only there. -/
theorem Plain.ended (h : stdin.Plain) (hempty : stdin.fillBuf.buffer = []) :
    stdin.fillBuf.bytes = [] := by
  unfold Stdin.fillBuf at hempty ⊢
  split at hempty
  · rename_i chunk chunks _ hchunks
    exact absurd hempty (h chunk (by rw [hchunks]; exact List.mem_cons_self))
  · rename_i hcase
    cases hchunks : stdin.chunks with
    | nil => simp [bytes, hempty, hchunks]
    | cons chunk chunks => exact absurd hchunks (hcase chunk chunks hempty)

theorem bytes_consume (n : Nat) :
    stdin.buffer.take n ++ (stdin.consume n).bytes = stdin.bytes := by
  unfold consume bytes
  rw [← List.append_assoc, List.take_append_drop]

end Stdin

theorem idxOf?_newline {bytes : Bytes} {index : Nat} (h : bytes.idxOf? newline = some index) :
    ∃ before after, bytes = before ++ newline :: after ∧ newline ∉ before ∧
      before.length = index := by
  induction bytes generalizing index with
  | nil => exact absurd h (by simp)
  | cons b bytes ih =>
    rw [List.idxOf?_cons] at h
    split at h
    · rename_i hb
      obtain rfl := Option.some.inj h
      have hbyte : b = newline := by simpa using hb
      exact ⟨[], bytes, by rw [hbyte]; rfl, by simp, rfl⟩
    · rename_i hb
      obtain ⟨index', hindex, rfl⟩ := Option.map_eq_some_iff.mp h
      obtain ⟨before, after, rfl, hbefore, rfl⟩ := ih hindex
      refine ⟨b :: before, after, rfl, ?_, rfl⟩
      intro hmem
      rcases List.mem_cons.mp hmem with heq | hmem
      · exact hb (by simp [heq])
      · exact hbefore hmem

/-- A step of the future: it takes more bytes of the line, or delivers the next line of the
input, or finds that there is none. -/
inductive Reads (p : Bytes) (stdin stdin' : Stdin) : ReadFuture ⊕ Option StdioFrame → Prop where
  | takes {future : ReadFuture} {p' : Bytes} (carries : future.Carries p') (clear : newline ∉ p')
      (bytes : p' ++ stdin'.bytes = p ++ stdin.bytes) : Reads p stdin stdin' (.inl future)
  | delivers {segment : Bytes}
      (bytes : segments (p ++ stdin.bytes) = segment :: segments stdin'.bytes) :
      Reads p stdin stdin' (.inr (some (frameOf segment)))
  | ends (nothing : p = []) (before : stdin.bytes = []) (after : stdin'.bytes = []) :
      Reads p stdin stdin' (.inr none)

section Reads
variable {p : Bytes} {stdin : Stdin}

theorem frameOf_small {segment : Bytes} (h : segment.length ≤ stdioMaxFrameBytes) :
    frameOf segment = .line segment := if_neg (by omega)

theorem frameOf_large {segment : Bytes} (h : segment.length > stdioMaxFrameBytes) :
    frameOf segment = .tooLarge segment.length := if_pos h

/-- The end of stdin ends a line that has begun. -/
theorem segments_ended (hclear : newline ∉ p) (hne : p ≠ []) {rest : Bytes} (hrest : rest = []) :
    segments (p ++ rest) = p :: segments rest := by
  rw [hrest, List.append_nil, segments_unterminated hclear hne]
  rfl

/-- A newline in the buffer ends the line. -/
theorem segments_newline (hclear : newline ∉ p) {index : Nat}
    (hindex : stdin.buffer.idxOf? newline = some index) :
    segments (p ++ stdin.bytes) =
        (p ++ stdin.buffer.take (index + 1)) :: segments (stdin.consume (index + 1)).bytes ∧
      (p ++ stdin.buffer.take (index + 1)).length = p.length + (index + 1) := by
  obtain ⟨before, after, hbuffer, hbefore, hlength⟩ := idxOf?_newline hindex
  have htake : stdin.buffer.take (index + 1) = before ++ [newline] := by
    rw [hbuffer, ← hlength, List.take_append, List.take_of_length_le (by omega)]
    simp
  have hdrop : stdin.buffer.drop (index + 1) = after := by
    rw [hbuffer, ← hlength, List.drop_append]
    simp
  refine ⟨?_, ?_⟩
  · unfold Stdin.consume Stdin.bytes
    rw [htake, hdrop, hbuffer]
    have hclear' : newline ∉ p ++ before := by
      rw [List.mem_append]
      exact fun h => h.elim hclear hbefore
    have hcut : segments (p ++ before ++ newline :: (after ++ stdin.chunks.flatten)) = _ :=
      segments_terminated hclear'
    simpa using hcut
  · rw [htake, List.length_append, List.length_append, hlength]
    rfl

/-- A buffer without a newline is taken whole. -/
theorem takes_buffer (hclear : newline ∉ p) (hindex : stdin.buffer.idxOf? newline = none) :
    newline ∉ p ++ stdin.buffer ∧
      (p ++ stdin.buffer) ++ (stdin.consume stdin.buffer.length).bytes = p ++ stdin.bytes := by
  refine ⟨?_, ?_⟩
  · rw [List.mem_append]
    exact fun h => h.elim hclear (List.idxOf?_eq_none_iff.mp hindex)
  · have hconsume := stdin.bytes_consume stdin.buffer.length
    rw [List.take_length] at hconsume
    rw [List.append_assoc, hconsume]

theorem readStdioFrame_reads {future : ReadFuture} (hplain : stdin.Plain)
    (hcarries : future.Carries p) (hclear : newline ∉ p) :
    (readStdioFrame future stdin).1.Plain ∧
      Reads p stdin (readStdioFrame future stdin).1 (readStdioFrame future stdin).2 := by
  have hfilled := hplain.fillBuf
  have hbytes : stdin.fillBuf.bytes = stdin.bytes := Stdin.bytes_fillBuf
  have hconsumed : ∀ n, (stdin.fillBuf.consume n).Plain := fun n => hfilled
  cases future with
  | line l =>
    obtain ⟨rfl, hsmall⟩ := hcarries
    unfold readStdioFrame
    dsimp only
    split
    · rename_i hempty
      have hended := hplain.ended hempty
      refine ⟨hfilled, ?_⟩
      by_cases hnil : l = []
      · rw [if_pos hnil]
        exact .ends hnil (hbytes.symm.trans hended) hended
      · rw [if_neg hnil, ← frameOf_small hsmall]
        refine .delivers ?_
        rw [← hbytes]
        exact segments_ended hclear hnil hended
    · split
      · rename_i index hindex
        obtain ⟨hcut, hlength⟩ := segments_newline hclear hindex
        rw [hbytes] at hcut
        split
        · rename_i hlarge
          refine ⟨hconsumed _, ?_⟩
          rw [← hlength] at hlarge ⊢
          rw [← frameOf_large hlarge]
          exact .delivers hcut
        · rename_i hlarge
          refine ⟨hconsumed _, ?_⟩
          rw [← frameOf_small (by omega)]
          exact .delivers hcut
      · rename_i hindex
        obtain ⟨hclear', htaken⟩ := takes_buffer hclear hindex
        rw [hbytes] at htaken
        split
        · rename_i hlarge
          refine ⟨hconsumed _, .takes ⟨(List.length_append ..).symm, ?_⟩ hclear' htaken⟩
          rw [List.length_append]
          omega
        · rename_i hlarge
          refine ⟨hconsumed _, .takes ⟨rfl, ?_⟩ hclear' htaken⟩
          rw [List.length_append]
          omega
  | tail counted =>
    obtain ⟨rfl, hlarge⟩ := hcarries
    have hne : p ≠ [] := by
      rintro rfl
      exact absurd hlarge (by simp)
    unfold readStdioFrame
    dsimp only
    split
    · rename_i hempty
      have hended := hplain.ended hempty
      refine ⟨hfilled, ?_⟩
      rw [← frameOf_large hlarge]
      refine .delivers ?_
      rw [← hbytes]
      exact segments_ended hclear hne hended
    · split
      · rename_i index hindex
        obtain ⟨hcut, hlength⟩ := segments_newline hclear hindex
        rw [hbytes] at hcut
        refine ⟨hconsumed _, ?_⟩
        rw [← hlength, ← frameOf_large (by omega)]
        exact .delivers hcut
      · rename_i hindex
        obtain ⟨hclear', htaken⟩ := takes_buffer hclear hindex
        rw [hbytes] at htaken
        refine ⟨hconsumed _, .takes ⟨(List.length_append ..).symm, ?_⟩ hclear' htaken⟩
        rw [List.length_append]
        omega

end Reads

/-- The future that the main task waits for, if any. -/
def LoopPc.future : LoopPc → Option ReadFuture
  | .reading future => some future
  | .selecting future => some future
  | _ => none

namespace State
variable {σ ρ : Type} {json : JsonReader} {s t : State σ ρ} {whole : Bytes}

/-- The frames so far and the lines to come are the lines of the whole input, and nothing is
to come once stdin was found closed. -/
structure Framed (whole : Bytes) (s : State σ ρ) : Prop where
  plain : s.stdin.Plain
  closed : s.stdinClosed = true → s.stdin.bytes = [] ∧ s.pc.future = none
  lines : ∃ p, newline ∉ p ∧ (∀ future, s.pc.future = some future → future.Carries p) ∧
    (s.pc.future = none → p = []) ∧
    (segments whole).map frameOf = s.frames ++ (segments (p ++ s.stdin.bytes)).map frameOf

/-- The arm of `select!` that drops the reading future drops no bytes with it. -/
def dropsNothing (s : State σ ρ) : Action σ ρ → Bool
  | .join =>
    match s.pc with
    | .selecting future => future = .line []
    | _ => true
  | _ => true

theorem frames_queueStdioFrame (json : JsonReader) (s : State σ ρ) (frame : StdioFrame) :
    (s.queueStdioFrame json frame).frames = s.frames ++ [frame] ∧
      (s.queueStdioFrame json frame).stdin = s.stdin ∧
      (s.queueStdioFrame json frame).stdinClosed = s.stdinClosed ∧
      (s.queueStdioFrame json frame).pc = s.pc := by
  unfold queueStdioFrame
  dsimp only
  split
  all_goals exact ⟨rfl, rfl, rfl, rfl⟩

theorem Framed.readStep {future : ReadFuture} {waiting : ReadFuture → LoopPc}
    (h : s.Framed whole) (hpc : s.pc.future = some future)
    (hwaiting : ∀ f, (waiting f).future = some f) :
    (s.readStep json future waiting).Framed whole := by
  obtain ⟨p, hclear, hcarries, -, hlines⟩ := h.lines
  obtain ⟨hplain, hreads⟩ := readStdioFrame_reads h.plain (hcarries future hpc) hclear
  unfold State.readStep
  generalize readStdioFrame future s.stdin = result at hplain hreads
  obtain ⟨stdin, r⟩ := result
  have hopen : s.stdinClosed = false := by
    by_contra hclosed
    have hnone := (h.closed (Bool.of_not_eq_false hclosed)).2
    exact absurd (hnone.symm.trans hpc) (by simp)
  cases hreads with
  | takes hcarries' hclear' hbytes =>
    rename_i future' p'
    refine ⟨hplain, ?_, p', hclear', ?_, ?_, ?_⟩
    · intro hclosed
      exact absurd (hopen.symm.trans hclosed) (by simp)
    · intro f hf
      obtain rfl := Option.some.inj ((hwaiting future').symm.trans hf)
      exact hcarries'
    · intro hnone
      exact absurd ((hwaiting future').symm.trans hnone) (by simp)
    · rw [hbytes]
      exact hlines
  | delivers hcut =>
    rename_i segment
    obtain ⟨hframes, hstdin, hclosed, hpc'⟩ :=
      frames_queueStdioFrame json { s with stdin := stdin, pc := .top } (frameOf segment)
    refine ⟨?_, ?_, [], by simp, ?_, fun _ => rfl, ?_⟩
    · rw [hstdin]
      exact hplain
    · rw [hclosed]
      exact fun htrue => absurd (hopen.symm.trans htrue) (by simp)
    · rw [hpc']
      exact fun f hf => absurd hf (by simp [LoopPc.future])
    · rw [hframes, hstdin, hlines, hcut, List.append_assoc]
      rfl
  | ends hnothing hbefore hafter =>
    refine ⟨hplain, fun _ => ⟨hafter, rfl⟩, [], by simp, ?_, fun _ => rfl, ?_⟩
    · exact fun f hf => absurd hf (by simp [LoopPc.future])
    · rw [hnothing, hbefore] at hlines
      rw [hlines, hafter]

/-- The main task goes somewhere without touching stdin. -/
theorem Framed.move (h : s.Framed whole) (hstdin : t.stdin = s.stdin)
    (hclosed : t.stdinClosed = s.stdinClosed) (hframes : t.frames = s.frames)
    (hpc : t.pc.future = s.pc.future) : t.Framed whole := by
  refine ⟨?_, ?_, ?_⟩
  · rw [hstdin]
    exact h.plain
  · rw [hclosed, hstdin, hpc]
    exact h.closed
  · rw [hstdin, hframes, hpc]
    exact h.lines

/-- A future that has taken nothing can be made and dropped. -/
theorem Framed.fresh (h : s.Framed whole)
    (hbefore : s.pc.future = none ∨ s.pc.future = some (.line []))
    (hstdin : t.stdin = s.stdin) (hclosed : t.stdinClosed = s.stdinClosed)
    (hframes : t.frames = s.frames)
    (hafter : t.pc.future = none ∨ t.pc.future = some (.line []) ∧ t.stdinClosed = false) :
    t.Framed whole := by
  obtain ⟨p, hclear, hcarries, hnone, hlines⟩ := h.lines
  have hp : p = [] := by
    rcases hbefore with hbefore | hbefore
    · exact hnone hbefore
    · obtain ⟨rfl, -⟩ := hcarries _ hbefore
      rfl
  subst hp
  refine ⟨?_, ?_, [], hclear, ?_, fun _ => rfl, ?_⟩
  · rw [hstdin]
    exact h.plain
  · intro htrue
    rw [hstdin]
    refine ⟨(h.closed (hclosed.symm.trans htrue)).1, ?_⟩
    rcases hafter with hafter | ⟨-, hopen⟩
    · exact hafter
    · exact absurd (hopen.symm.trans htrue) (by simp)
  · intro future hfuture
    rcases hafter with hafter | ⟨hafter, -⟩
    · exact absurd (hafter.symm.trans hfuture) (by simp)
    · obtain rfl := Option.some.inj (hafter.symm.trans hfuture)
      exact ⟨rfl, Nat.zero_le _⟩
  · rw [hstdin, hframes]
    exact hlines

theorem Framed.mainStep (h : s.Framed whole) (hpc : s.pc = .top) : s.mainStep.Framed whole := by
  have hnone : s.pc.future = none := by
    rw [hpc]
    rfl
  unfold State.mainStep
  split
  · split
    · exact h.move rfl rfl rfl rfl
    · split
      · exact h.move rfl rfl rfl rfl
      · split
        · exact h.fresh (.inl hnone) rfl rfl rfl (.inl rfl)
        · exact h.move rfl rfl rfl rfl
    · split
      · exact h.fresh (.inl hnone) rfl rfl rfl (.inl rfl)
      · rename_i hopen
        exact h.fresh (.inl hnone) rfl rfl rfl
          (.inr ⟨rfl, eq_false_of_ne_true hopen⟩)
  · split
    · exact h.fresh (.inl hnone) rfl rfl rfl (.inl rfl)
    · rename_i hopen
      exact h.fresh (.inl hnone) rfl rfl rfl
        (.inr ⟨rfl, eq_false_of_ne_true hopen⟩)

/-- Whoever joins the active task does not touch stdin, and waits for no line. -/
theorem joinStep_stdin (hstep : s.joinStep = some t) :
    t.stdin = s.stdin ∧ t.stdinClosed = s.stdinClosed ∧ t.frames = s.frames ∧
      t.pc.future = none := by
  unfold State.joinStep at hstep
  split at hstep
  · obtain rfl := Option.some.inj hstep
    exact ⟨rfl, rfl, rfl, rfl⟩
  · split at hstep
    · exact absurd hstep (by simp)
    · split at hstep
      · exact absurd hstep (by simp)
      · obtain rfl := Option.some.inj hstep
        split
        · exact ⟨rfl, rfl, rfl, rfl⟩
        · exact ⟨rfl, rfl, rfl, rfl⟩

theorem step_framed {a : Action σ ρ} (h : s.Framed whole) (hguard : s.dropsNothing a = true)
    (hstep : step json s a = some t) : t.Framed whole := by
  cases a with
  | main =>
    simp only [step] at hstep
    split at hstep
    · rename_i hpc
      obtain rfl := Option.some.inj hstep
      exact h.mainStep hpc
    · exact absurd hstep (by simp)
  | read =>
    simp only [step] at hstep
    split at hstep
    · rename_i future hpc
      obtain rfl := Option.some.inj hstep
      exact h.readStep (by rw [hpc]; rfl) (fun _ => rfl)
    · rename_i future hpc
      obtain rfl := Option.some.inj hstep
      exact h.readStep (by rw [hpc]; rfl) (fun _ => rfl)
    · exact absurd hstep (by simp)
  | worker number session response =>
    simp only [step, workerStep] at hstep
    split at hstep
    · obtain rfl := Option.some.inj hstep
      exact h.move rfl rfl rfl rfl
    · exact absurd hstep (by simp)
  | join =>
    simp only [step] at hstep
    split at hstep
    · rename_i future hpc
      obtain ⟨hstdin, hclosed, hframes, hnone⟩ := joinStep_stdin hstep
      have hfuture : future = .line [] := by
        simpa [dropsNothing, hpc] using hguard
      refine h.fresh (.inr ?_) hstdin hclosed hframes (.inl hnone)
      rw [hpc, hfuture]
      rfl
    · rename_i hpc
      obtain ⟨hstdin, hclosed, hframes, hnone⟩ := joinStep_stdin hstep
      refine h.fresh (.inl ?_) hstdin hclosed hframes (.inl hnone)
      rw [hpc]
      rfl
    · exact absurd hstep (by simp)

theorem initial_framed (session : σ) {chunks : List Bytes} (hchunks : ∀ c ∈ chunks, c ≠ []) :
    (initial session chunks : State σ ρ).Framed chunks.flatten :=
  ⟨hchunks, fun hclosed => absurd hclosed (by simp [initial]), [], by simp,
    fun _ hf => absurd hf (by simp [initial, LoopPc.future]), fun _ => rfl, rfl⟩

/-- The frames are the lines of the input, in every run in which `select!` never drops a
reading future that has taken bytes of a line off stdin: at every moment they are the first
lines, what the future carries and what is unread make up the others, and once stdin was
found closed the frames are all of them. -/
theorem frames_are_lines (json : JsonReader) (session : σ) {chunks : List Bytes}
    (hchunks : ∀ c ∈ chunks, c ≠ []) {s : State σ ρ}
    (hreach : Reach (guarded (fun s a => s.dropsNothing a = true) (step json))
      (initial session chunks) s) :
    (∃ carried, (∀ future, s.pc.future = some future → future.Carries carried) ∧
        (s.pc.future = none → carried = []) ∧
        (segments chunks.flatten).map frameOf =
          s.frames ++ (segments (carried ++ s.stdin.bytes)).map frameOf) ∧
      (s.stdinClosed = true → s.frames = (segments chunks.flatten).map frameOf) := by
  have hframed : s.Framed chunks.flatten := by
    refine Reach.invariant (I := Framed chunks.flatten) ?_ hreach (initial_framed session hchunks)
    intro s a t hs hstep
    obtain ⟨hguard, hstep⟩ := guarded_eq_some.mp hstep
    exact step_framed hs hguard hstep
  obtain ⟨p, -, hcarries, hnone, hlines⟩ := hframed.lines
  refine ⟨⟨p, hcarries, hnone, hlines⟩, ?_⟩
  intro hclosed
  obtain ⟨hempty, hfuture⟩ := hframed.closed hclosed
  rw [hlines, hnone hfuture, hempty]
  exact (List.append_nil _).symm

def noJson : JsonReader := fun _ => none

/-- Two lines; the second arrives while the first is handled. -/
theorem frames_are_lines_two :
    let s := after (guarded (fun s a => s.dropsNothing a = true) (step noJson))
      (initial () [[104, 105, 10], [121], [111, 10]] : State Unit Unit)
      [.main, .read, .main, .main, .read, .read, .main, .worker 0 () none, .join, .main, .main,
        .read]
    s.stdinClosed = true ∧ s.frames = [.line [104, 105, 10], .line [121, 111, 10]] := by
  intro s
  have hclosed : s.stdinClosed = true := by decide
  have hframes := (frames_are_lines noJson () (by decide) (reach_after ..)).2 hclosed
  exact ⟨hclosed, hframes.trans (by decide)⟩

/-- The worker ends while the line `abc` is half read. -/
theorem line_lost_in_select :
    ∃ s : State Unit Unit,
      Reach (step noJson) (initial () [[120, 10], [97, 98], [99, 10]]) s ∧
      s.stdinClosed = true ∧ s.frames = [.line [120, 10], .line [99, 10]] ∧
      (segments [120, 10, 97, 98, 99, 10]).map frameOf =
        [.line [120, 10], .line [97, 98, 99, 10]] :=
  ⟨after (step noJson) (initial () [[120, 10], [97, 98], [99, 10]])
      [.main, .read, .main, .main, .read, .worker 0 () none, .join, .main, .read, .main, .main,
        .read],
    reach_after .., by decide, by decide, by decide⟩

end State

end CodeStory.Stdio
