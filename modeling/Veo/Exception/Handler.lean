-- SUMMARY: The exception handler stops at the first terminating exception and has answered every system call before it.
import Veo.Exception.Basic

/-!
# Where the exception handler stops

An exception terminates the handler if it carries an error condition, is a block request,
or is the call that the filter hooks. `VeException.status` is the result it gives, and
`exceptionHandler_first` says that the handler stops at the first of them, and
`afterAll_answers` that every system call before it has been answered once and in order.
-/

namespace Veo

/-! ## Terminating exceptions -/

/-- The call a filter hooks. -/
def SyscallFilter.hooked : SyscallFilter → Option Syscall
  | .default => none
  | .hookClone => some .clone
  | .exit => some .exitGroup

namespace VeException
variable (P : Platform)

/-- The exception is not empty. -/
def IsRaised (e : VeException) : Prop := e.exs &&& exceptionMask ≠ 0

/-- The exception is a monitor call. -/
def IsSyscall (e : VeException) : Prop := e.exs &&& P.exsMonc ≠ 0

/-- The exception is a block request. -/
def IsBlock (e : VeException) : Prop :=
  e.IsSyscall P ∧ e.sysnum = nrSysve ∧ e.args argCode = sysveVeoBlock

/-- The exception is the call that the filter hooks. -/
def IsHooked (f : SyscallFilter) (e : VeException) : Prop :=
  e.IsSyscall P ∧ f.hooked.map P.nr = some e.sysnum

instance (e : VeException) : Decidable e.IsRaised :=
  inferInstanceAs (Decidable (e.exs &&& exceptionMask ≠ 0))
instance (e : VeException) : Decidable (e.IsSyscall P) :=
  inferInstanceAs (Decidable (e.exs &&& P.exsMonc ≠ 0))
instance (e : VeException) : Decidable (e.IsBlock P) :=
  inferInstanceAs (Decidable (e.IsSyscall P ∧ e.sysnum = nrSysve ∧ e.args argCode = sysveVeoBlock))
instance (f : SyscallFilter) (e : VeException) : Decidable (e.IsHooked P f) :=
  inferInstanceAs (Decidable (e.IsSyscall P ∧ f.hooked.map P.nr = some e.sysnum))

/-- The exceptions that end the handler. -/
def Terminates (f : SyscallFilter) (e : VeException) : Prop :=
  e.IsRaised ∧ (isError P e.exs = true ∨ e.IsBlock P ∨ e.IsHooked P f)

/-- The result of the handler for a terminating exception, zero for another one. The
    error condition comes first. -/
def status (f : SyscallFilter) (e : VeException) : Int :=
  if isError P e.exs then statusException
  else if e.IsHooked P f then e.sysnum
  else if e.IsBlock P then statusBlockRequested
  else 0

/-- The answer to the system call of an exception that the filter does not break on. -/
def reply (f : SyscallFilter) (e : VeException) : List Answer :=
  if e.IsSyscall P ∧ ¬ e.IsBlock P ∧ ¬ e.IsHooked P f then
    if e.sysnum ∈ defaultFilteredSyscalls.map P.nr then [.unBlock e.sysnum enosys]
    else [.handle e.sysnum]
  else []

/-- All that is sent because of an exception: the answer to its system call, the
    notification of a block request, and the one of an error. -/
def answers (f : SyscallFilter) (e : VeException) : List Answer :=
  e.reply P f ++ (if e.IsBlock P then [.block] else []) ++
    (if isError P e.exs then [.block] else [])

/-- The VE thread after an exception. -/
def after (f : SyscallFilter) (e : VeException) (t : VeThread) : VeThread :=
  { state := if e.IsBlock P then .blocked else t.state
    veSp := t.veSp
    sysargs := if e.IsSyscall P then e.args else t.sysargs
    seen := t.seen ++ [e]
    answers := t.answers ++ e.answers P f }

variable {P}

theorem not_block_of_hooked {f : SyscallFilter} {e : VeException} (h : e.IsHooked P f) :
    ¬ e.IsBlock P := by
  rintro ⟨-, hsysve, -⟩
  obtain ⟨-, hnum⟩ := h
  rw [hsysve] at hnum
  obtain ⟨c, -, hc⟩ := Option.map_eq_some_iff.mp hnum
  exact P.nrNeSysve c hc

theorem status_ne_zero_iff {f : SyscallFilter} {e : VeException} :
    e.status P f ≠ 0 ↔ isError P e.exs = true ∨ e.IsBlock P ∨ e.IsHooked P f := by
  unfold status
  by_cases herr : isError P e.exs = true
  · simp [herr, statusException]
  · by_cases hhook : e.IsHooked P f
    · obtain ⟨c, -, hc⟩ := Option.map_eq_some_iff.mp hhook.2
      have hpos := P.nrGt c
      simp only [herr, hhook, if_true]
      simp
      omega
    · by_cases hblock : e.IsBlock P <;> simp [herr, hhook, hblock, statusBlockRequested]

end VeException

/-! ## One exception -/

section Step
variable {P : Platform} {f : SyscallFilter} {e : VeException} {t : VeThread}

theorem sysve_not_filtered : nrSysve ∉ defaultFilteredSyscalls.map P.nr := by
  intro h
  obtain ⟨c, -, hc⟩ := List.mem_map.mp h
  exact P.nrNeSysve c hc

/-- A filter lets the default filter decide on a call it does not hook. -/
theorem apply_of_not_hooked (hcall : e.IsSyscall P) (hhook : ¬ e.IsHooked P f) :
    f.apply P e.sysnum t = defaultFilter P e.sysnum t := by
  have hne (c : Syscall) (hc : f.hooked = some c) : e.sysnum ≠ P.nr c := by
    intro h
    exact hhook ⟨hcall, by rw [hc, h]; rfl⟩
  cases f with
  | default => rfl
  | hookClone => exact if_neg (hne .clone rfl)
  | exit => exact if_neg (hne .exitGroup rfl)

/-- A filter breaks on the call it hooks and leaves it unanswered. -/
theorem apply_of_hooked (hhook : e.IsHooked P f) :
    f.apply P e.sysnum t = { filtered := true, breakFlag := e.sysnum, thread := t } := by
  obtain ⟨-, hnum⟩ := hhook
  cases f with
  | default => cases hnum
  | hookClone | exit =>
      rw [SyscallFilter.hooked, Option.map_some, Option.some.injEq] at hnum
      rw [← hnum]
      exact if_pos rfl

/-- The default filter breaks on a block request. -/
theorem defaultFilter_block (hblock : e.IsBlock P) (hargs : t.sysargs = e.args) :
    defaultFilter P e.sysnum t =
      { filtered := true, breakFlag := statusBlockRequested,
        thread := { t.answer .block with state := .blocked } } := by
  obtain ⟨-, hsysve, hsub⟩ := hblock
  have hveo : isVeoBlock t e.sysnum = true := by simp [isVeoBlock, hsysve, hargs, hsub]
  have hnot := sysve_not_filtered (P := P)
  rw [← hsysve] at hnot
  simp only [defaultFilter, hnot, hveo, if_false, if_true]

/-- The default filter refuses the filtered calls and lets the others pass. -/
theorem defaultFilter_not_block (hcall : e.IsSyscall P) (hblock : ¬ e.IsBlock P)
    (hargs : t.sysargs = e.args) :
    defaultFilter P e.sysnum t =
      if e.sysnum ∈ defaultFilteredSyscalls.map P.nr then
        { filtered := true, breakFlag := 0, thread := t.answer (.unBlock e.sysnum enosys) }
      else { filtered := false, breakFlag := 0, thread := t } := by
  have hveo : isVeoBlock t e.sysnum = false := by
    by_cases hs : e.sysnum = nrSysve
    · have hsub : e.args argCode ≠ sysveVeoBlock := fun h => hblock ⟨hcall, hs, h⟩
      simp [isVeoBlock, hs, hargs, hsub]
    · simp [isVeoBlock, hs]
  simp [defaultFilter, hveo]

/-- A monitor call: the break flag is the status the call gives without an error. -/
theorem handleMonitorCall_eq (hcall : e.IsSyscall P) (ht : t.state = .running) :
    handleMonitorCall P f e t =
      (if e.IsHooked P f then e.sysnum else if e.IsBlock P then statusBlockRequested else 0,
       { t with state := if e.IsBlock P then .blocked else t.state
                sysargs := e.args
                answers := t.answers ++ (e.reply P f ++ if e.IsBlock P then [.block] else []) }) := by
  unfold handleMonitorCall
  by_cases hhook : e.IsHooked P f
  · have hblock := VeException.not_block_of_hooked hhook
    simp [apply_of_hooked hhook, VeException.reply, hhook, hblock]
  · rw [apply_of_not_hooked hcall hhook]
    by_cases hblock : e.IsBlock P
    · simp [defaultFilter_block hblock, VeException.reply, VeThread.answer, hhook, hblock]
    · rw [defaultFilter_not_block hcall hblock rfl]
      by_cases hfilt : e.sysnum ∈ defaultFilteredSyscalls.map P.nr
      · simp only [hfilt, if_true, VeException.reply, VeThread.answer, hcall, hhook, hblock]
        simp
      · simp only [hfilt, if_false, VeException.reply, VeThread.answer, hcall, hhook, hblock, ht]
        simp

/-- What `handleSingleException` does with one exception. -/
theorem handleRaised_eq (ht : t.state = .running) :
    handleRaised P f e t = (e.status P f, e.after P f t) := by
  unfold handleRaised
  by_cases hcall : e.IsSyscall P
  · simp only [if_pos (show e.exs &&& P.exsMonc ≠ 0 from hcall),
      handleMonitorCall_eq (t := { t with seen := t.seen ++ [e] }) hcall ht]
    by_cases herr : isError P e.exs = true
    · simp [herr, VeException.status, VeException.after, VeException.answers, VeThread.answer, hcall]
    · have hflag (flag : Int) (u : VeThread) :
          (if flag ≠ 0 then (flag, u) else (0, u)) = (flag, u) := by
        by_cases h : flag = 0 <;> simp [h]
      simp only [herr, hflag]
      simp [VeException.status, VeException.after, VeException.answers, herr, hcall]
  · have hhook : ¬ e.IsHooked P f := fun h => hcall h.1
    have hblock : ¬ e.IsBlock P := fun h => hcall h.1
    simp only [if_neg (show ¬ e.exs &&& P.exsMonc ≠ 0 from hcall)]
    by_cases herr : isError P e.exs = true <;>
      simp [herr, VeException.status, VeException.after, VeException.answers, VeException.reply,
        hhook, hblock, hcall, VeThread.answer]

end Step

/-! ## The loop -/

section Loop
variable {P : Platform} {f : SyscallFilter} {t : VeThread}

/-- The wait takes at least one result from the stream. -/
theorem waitException_rest_lt {es rest : List WaitResult} {e : VeException}
    (h : waitException t es = .ok (e, rest)) : rest.length < es.length := by
  induction es with
  | nil => cases h
  | cons w es ih =>
      cases w with
      | interrupted => exact Nat.lt_succ_of_lt (ih h)
      | failed errno => cases h
      | raised e' =>
          simp only [waitException] at h
          split at h
          · exact Nat.lt_succ_of_lt (ih h)
          · cases h
            exact Nat.lt_succ_self _

theorem handleSingleException_rest_lt {es : List WaitResult} {r : Handled}
    (h : handleSingleException P f es t = .ok r) : r.rest.length < es.length := by
  obtain ⟨⟨e, rest⟩, hwait, hret⟩ := Except.bind_eq_ok.mp h
  cases hret
  exact waitException_rest_lt hwait

/-- More rounds than results make no difference. -/
theorem exceptionLoop_fuel {m n : Nat} (exc : BitVec 64) (es : List WaitResult)
    (hm : es.length < m) (hn : es.length < n) :
    exceptionLoop P f m exc es t = exceptionLoop P f n exc es t := by
  induction m generalizing n exc es t with
  | zero => cases hm
  | succ m ih =>
      cases n with
      | zero => cases hn
      | succ n =>
          unfold exceptionLoop
          split
          · cases hstep : handleSingleException P f es t with
            | error s => rfl
            | ok r =>
                have hlt := handleSingleException_rest_lt hstep
                have hrest := ih r.exs r.rest (t := r.thread) (n := n) (by omega) (by omega)
                simp only [bind, Except.bind, hrest]
          · rfl

theorem exceptionHandler_nil (ht : t.state = .running) :
    exceptionHandler P f [] t = .error (.waiting t) := by
  simp [exceptionHandler, exceptionLoop, ht, handleSingleException, waitException, bind, Except.bind]

/-- A result that the wait loop skips. -/
theorem exceptionHandler_skip {w : WaitResult} {es : List WaitResult} (ht : t.state = .running)
    (hskip : waitException t (w :: es) = waitException t es) :
    exceptionHandler P f (w :: es) t = exceptionHandler P f es t := by
  have hsingle : handleSingleException P f (w :: es) t = handleSingleException P f es t := by
    simp only [handleSingleException, hskip]
  have hfuel := exceptionLoop_fuel (P := P) (f := f) (t := t) (m := es.length + 2)
    (n := es.length + 1) 0 es (by omega) (by omega)
  unfold exceptionHandler
  rw [← hfuel]
  simp only [List.length_cons, exceptionLoop, ht, if_true, hsingle]

theorem exceptionHandler_interrupted {es : List WaitResult} (ht : t.state = .running) :
    exceptionHandler P f (.interrupted :: es) t = exceptionHandler P f es t :=
  exceptionHandler_skip ht rfl

theorem exceptionHandler_empty {e : VeException} {es : List WaitResult} (ht : t.state = .running)
    (he : ¬ e.IsRaised) : exceptionHandler P f (.raised e :: es) t = exceptionHandler P f es t :=
  exceptionHandler_skip ht (by rw [waitException, if_pos (not_not.mp he)])

/-- An exception either ends the handler or leaves the thread running. -/
theorem exceptionHandler_raised {e : VeException} {es : List WaitResult} (ht : t.state = .running)
    (he : e.IsRaised) :
    exceptionHandler P f (.raised e :: es) t =
      if e.status P f ≠ 0 then
        .ok { status := e.status P f, exs := e.exs, thread := e.after P f t, rest := es }
      else exceptionHandler P f es (e.after P f t) := by
  have hsingle : handleSingleException P f (.raised e :: es) t =
      .ok { status := e.status P f, exs := e.exs, thread := e.after P f t, rest := es } := by
    simp only [handleSingleException, waitException, if_neg he, handleRaised_eq ht, bind,
      Except.bind, pure, Except.pure]
  simp only [exceptionHandler, List.length_cons, exceptionLoop, ht, if_true, hsingle, bind,
    Except.bind, pure, Except.pure]
  split
  · rfl
  · rename_i hzero
    have hrunning : (e.after P f t).state = .running := by
      have hblock : ¬ e.IsBlock P := fun h =>
        hzero (VeException.status_ne_zero_iff.mpr (.inr (.inl h)))
      simp [VeException.after, hblock, ht]
    simp only [hrunning, if_true]

/-! ## Streams -/

/-- A result that does not end the handler. -/
def WaitResult.Quiet (P : Platform) (f : SyscallFilter) : WaitResult → Prop
  | .interrupted => True
  | .failed _ => False
  | .raised e => ¬ e.Terminates P f

/-- The exceptions of a stream, without the empty ones. -/
def raisedOf (es : List WaitResult) : List VeException :=
  es.filterMap fun
    | .raised e => if e.IsRaised then some e else none
    | _ => none

/-- The thread after a stream of results that do not end the handler. -/
def afterAll (P : Platform) (f : SyscallFilter) (es : List WaitResult) (t : VeThread) : VeThread :=
  (raisedOf es).foldl (fun t e => e.after P f t) t

/-- The handler goes on after a stream of results that do not end it. -/
theorem exceptionHandler_append {pre : List WaitResult} (es : List WaitResult) (ht : t.state = .running)
    (hpre : ∀ w ∈ pre, w.Quiet P f) :
    exceptionHandler P f (pre ++ es) t = exceptionHandler P f es (afterAll P f pre t) ∧
      (afterAll P f pre t).state = .running := by
  induction pre generalizing t with
  | nil => exact ⟨rfl, ht⟩
  | cons w pre ih =>
      have hrest : ∀ v ∈ pre, v.Quiet P f := fun v hv => hpre v (List.mem_cons_of_mem w hv)
      have hw := hpre w List.mem_cons_self
      cases w with
      | interrupted =>
          rw [List.cons_append, exceptionHandler_interrupted ht]
          exact ih ht hrest
      | failed errno => exact hw.elim
      | raised e =>
          by_cases he : e.IsRaised
          · have hzero : e.status P f = 0 := by
              by_contra h
              exact hw ⟨he, VeException.status_ne_zero_iff.mp h⟩
            have hblock : ¬ e.IsBlock P := fun h => hw ⟨he, .inr (.inl h)⟩
            have hrunning : (e.after P f t).state = .running := by
              simp [VeException.after, hblock, ht]
            rw [List.cons_append, exceptionHandler_raised ht he, if_neg (not_not.mpr hzero)]
            simpa [afterAll, raisedOf, he] using ih hrunning hrest
          · rw [List.cons_append, exceptionHandler_empty ht he]
            simpa [afterAll, raisedOf, he] using ih ht hrest

theorem afterAll_answers {es : List WaitResult} (hes : ∀ w ∈ es, w.Quiet P f) :
    (afterAll P f es t).answers = t.answers ++ (raisedOf es).flatMap (VeException.reply P f) := by
  induction es generalizing t with
  | nil => simp [afterAll, raisedOf]
  | cons w es ih =>
      have hrest : ∀ v ∈ es, v.Quiet P f := fun v hv => hes v (List.mem_cons_of_mem w hv)
      have hw := hes w List.mem_cons_self
      cases w with
      | interrupted => exact ih hrest
      | failed errno => exact hw.elim
      | raised e =>
          by_cases he : e.IsRaised
          · have hblock : ¬ e.IsBlock P := fun h => hw ⟨he, .inr (.inl h)⟩
            have herr : ¬ isError P e.exs = true := fun h => hw ⟨he, .inl h⟩
            have hstep : (e.after P f t).answers = t.answers ++ e.reply P f := by
              simp [VeException.after, VeException.answers, hblock, herr]
            have htail := ih (t := e.after P f t) hrest
            rw [hstep] at htail
            simpa [afterAll, raisedOf, he] using htail
          · simpa [afterAll, raisedOf, he] using ih (t := t) hrest

theorem afterAll_seen (es : List WaitResult) :
    (afterAll P f es t).seen = t.seen ++ raisedOf es := by
  unfold afterAll
  induction raisedOf es generalizing t with
  | nil => simp
  | cons e es ih =>
      rw [List.foldl_cons, ih]
      simp [VeException.after]

/-- The handler stops at the first terminating exception. -/
theorem exceptionHandler_first {pre : List WaitResult} (post : List WaitResult) {e : VeException}
    (ht : t.state = .running) (hpre : ∀ w ∈ pre, w.Quiet P f) (he : e.Terminates P f) :
    exceptionHandler P f (pre ++ .raised e :: post) t =
      .ok { status := e.status P f, exs := e.exs,
            thread := e.after P f (afterAll P f pre t), rest := post } := by
  obtain ⟨happend, hrunning⟩ := exceptionHandler_append (.raised e :: post) ht hpre
  rw [happend, exceptionHandler_raised hrunning he.1,
    if_pos (VeException.status_ne_zero_iff.mpr he.2)]

/-- Without a terminating exception the handler waits on. -/
theorem exceptionHandler_waits {es : List WaitResult} (ht : t.state = .running)
    (hes : ∀ w ∈ es, w.Quiet P f) :
    exceptionHandler P f es t = .error (.waiting (afterAll P f es t)) := by
  obtain ⟨happend, hrunning⟩ := exceptionHandler_append [] ht hes
  rw [List.append_nil] at happend
  rw [happend, exceptionHandler_nil hrunning]

/-- A failed wait before any terminating exception ends the handler with an exception. -/
theorem exceptionHandler_failed {pre post : List WaitResult} {errno : Int}
    (ht : t.state = .running) (hpre : ∀ w ∈ pre, w.Quiet P f) :
    exceptionHandler P f (pre ++ .failed errno :: post) t =
      .error (.thrown "vedl_wait_exception failed" errno) := by
  obtain ⟨happend, hrunning⟩ := exceptionHandler_append (.failed errno :: post) ht hpre
  rw [happend]
  simp [exceptionHandler, exceptionLoop, hrunning, handleSingleException, waitException, bind,
    Except.bind]

/-- A stream has a first result that ends the handler, or none. -/
theorem first_stop (P : Platform) (f : SyscallFilter) (es : List WaitResult) :
    (∃ pre e post, es = pre ++ .raised e :: post ∧ (∀ w ∈ pre, w.Quiet P f) ∧ e.Terminates P f) ∨
    (∃ pre errno post, es = pre ++ .failed errno :: post ∧ ∀ w ∈ pre, w.Quiet P f) ∨
      ∀ w ∈ es, w.Quiet P f := by
  induction es with
  | nil => exact .inr (.inr fun _ h => by cases h)
  | cons w es ih =>
      by_cases hw : w.Quiet P f
      · rcases ih with ⟨pre, e, post, rfl, hpre, he⟩ | ⟨pre, errno, post, rfl, hpre⟩ | hall
        · exact .inl ⟨w :: pre, e, post, rfl, List.forall_mem_cons.mpr ⟨hw, hpre⟩, he⟩
        · exact .inr (.inl ⟨w :: pre, errno, post, rfl, List.forall_mem_cons.mpr ⟨hw, hpre⟩⟩)
        · exact .inr (.inr (List.forall_mem_cons.mpr ⟨hw, hall⟩))
      · cases w with
        | interrupted => exact absurd trivial hw
        | failed errno => exact .inr (.inl ⟨[], errno, es, rfl, fun _ h => by cases h⟩)
        | raised e => exact .inl ⟨[], e, es, rfl, (fun _ h => by cases h), not_not.mp hw⟩

/-- A handler that returns has stopped at the first terminating exception. -/
theorem exceptionHandler_eq_ok {es : List WaitResult} {r : Handled} (ht : t.state = .running)
    (h : exceptionHandler P f es t = .ok r) :
    ∃ pre e post, es = pre ++ .raised e :: post ∧ (∀ w ∈ pre, w.Quiet P f) ∧ e.Terminates P f ∧
      r = { status := e.status P f, exs := e.exs,
            thread := e.after P f (afterAll P f pre t), rest := post } := by
  rcases first_stop P f es with ⟨pre, e, post, rfl, hpre, he⟩ | ⟨pre, errno, post, rfl, hpre⟩ | hall
  · rw [exceptionHandler_first _ ht hpre he] at h
    exact ⟨pre, e, post, rfl, hpre, he, (Except.ok.inj h).symm⟩
  · rw [exceptionHandler_failed ht hpre] at h
    cases h
  · rw [exceptionHandler_waits ht hall] at h
    cases h

end Loop

end Veo
