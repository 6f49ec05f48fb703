import Minidsp.Recorder

/-! A transport with its log, from the wrapper through the logging task and the recorder's task
to the file: what is read of the file of any run, wherever it is cut. -/
namespace Minidsp
namespace Recorder

open Buffer Transition

/-- The task that writes: at its channel, in `framed.send` with some text left, or at its end. -/
inductive WriteTask
  | receiving
  | writing (rest : List Char)
  | ended
  deriving DecidableEq, Repr

structure State (σ Err : Type) extends Logger.State σ Bytes Bytes Err where
  rx : List Message
  writeTask : WriteTask
  file : List Char

inductive Label (σ : Type)
  | logger (a : Logger.Label σ Bytes)
  | next
  | write (n : ℕ)
  | writeError

section
variable {σ Err ε : Type}

/-- What the recorder is fed: the message its task took, when it survives the decoder. -/
def feeds (s : Logger.State σ Bytes Bytes Err) : Logger.Label σ Bytes → List Message
  | .take true => s.queue.head?.toList
  | _ => []

def init (s₀ : σ) : State σ Err := ⟨Logger.init s₀ .creating,[],.receiving,[]⟩

variable (codec : LinesCodec ε) (t : Logger.Inner σ Bytes Bytes Err)

def step (s : State σ Err) : Label σ → Option (State σ Err)
  | .logger a => (Logger.step t s.toState a).map fun u =>
    { s with
      toState := u
      rx := if s.writeTask = .ended then s.rx else s.rx ++ feeds s.toState a }
  | .next =>
    match s.writeTask,s.rx with
    | .receiving,m :: rx =>
      some { s with rx := rx, writeTask := .writing (codec.encode m.display) }
    | .receiving,[] => if s.task = .ended then some { s with writeTask := .ended } else none
    | _,_ => none
  | .write n =>
    match s.writeTask with
    | .writing rest =>
      if n ≤ rest.length then
        some { s with
          file := s.file ++ rest.take n
          writeTask := if rest.drop n = [] then .receiving else .writing (rest.drop n) }
      else none
    | _ => none
  | .writeError =>
    match s.writeTask with
    | .writing _ => some { s with writeTask := .ended, rx := [] }
    | _ => none

end

/-! The traffic of the transport. -/

section
variable {σ Err : Type} {t : Logger.Inner σ Bytes Bytes Err}

def seen : Logger.Call Bytes → Logger.Answer Bytes Err → Option Message
  | .startSend item, _ => some (.sent item)
  | _, .item (.ready (some (.ok item))) => some (.received item)
  | _, _ => none

/-- All frames that the transport took and gave, in their order. -/
def traffic (b : Logger.Bare σ Bytes Bytes Err) : List Message :=
  (b.asked.zip b.answers).filterMap fun x => seen x.1 x.2

def Balanced (b : Logger.Bare σ Bytes Bytes Err) : Prop := b.asked.length = b.answers.length

theorem traffic_forward {b : Logger.Bare σ Bytes Bytes Err} (hb : Balanced b)
    (c : Logger.Call Bytes) :
    Balanced (b.forward t c) ∧
      traffic (b.forward t c) = traffic b ++ (seen c (t.call b.inner c).1).toList := by
  constructor
  · show (b.asked ++ [c]).length = (b.answers ++ [_]).length
    rw [List.length_append,List.length_append,hb]
    rfl
  · show ((b.asked ++ [c]).zip (b.answers ++ [_])).filterMap _ = _
    rw [List.zip_append hb,List.filterMap_append,traffic]
    congr 1

variable {s u : Logger.State σ Bytes Bytes Err} {a : Logger.Label σ Bytes}

structure Adds (s u : Logger.State σ Bytes Bytes Err) (a : Logger.Label σ Bytes)
    (more : List Message) : Prop where
  balanced : Balanced u.toBare
  traffic : traffic u.toBare = traffic s.toBare ++ more
  queue : u.task ≠ .ended → s.task ≠ .ended ∧ s.queue ++ more = feeds s a ++ u.queue

theorem unboundedSend_queue (s : Logger.State σ Bytes Bytes Err) (m : Message) :
    ((s.unboundedSend m).getD s).task = s.task ∧
      (s.task ≠ .ended → ((s.unboundedSend m).getD s).queue = s.queue ++ [m]) := by
  by_cases hended : s.task = .ended
  · rw [Logger.State.unboundedSend,if_pos hended]
    exact ⟨rfl,fun h => absurd hended h⟩
  · rw [Logger.State.unboundedSend,if_neg hended]
    exact ⟨rfl,fun _ => rfl⟩

theorem pollNext_queue (h : (s.pollNext t).task ≠ .ended) : s.task ≠ .ended ∧
    s.queue ++ (seen .pollNext (t.call s.inner .pollNext).1).toList = (s.pollNext t).queue := by
  have hcall : (t.call s.inner .pollNext).1 = .item (t.pollNext s.inner).1 := rfl
  unfold Logger.State.pollNext at h ⊢
  split at h
  · rename_i element helement
    obtain ⟨htask,hqueue⟩ := unboundedSend_queue (s.forward t .pollNext) (.received element)
    have hs : s.task ≠ .ended := fun hended => h (htask.trans hended)
    rw [hcall,helement]
    exact ⟨hs,(hqueue hs).symm⟩
  · rename_i hnone
    refine ⟨h,?_⟩
    have hseen : seen .pollNext (t.call s.inner .pollNext).1 = none := by
      rw [hcall]
      rcases hitem : (t.pollNext s.inner).1 with (_ | e | element) | _
      · rfl
      · rfl
      · exact absurd hitem (hnone element)
      · rfl
    rw [hseen]
    exact List.append_nil _

theorem call_adds (hs : Balanced s.toBare) (c : Logger.Call Bytes) :
    ∃ more, Adds s (s.call t c) (.call c) more := by
  have hforward := traffic_forward (t := t) hs c
  cases c with
  | startSend item =>
    by_cases hended : s.task = .ended
    · refine ⟨[],?_⟩
      simp only [Logger.State.call,Logger.State.startSend,Logger.State.unboundedSend,if_pos hended]
      exact ⟨hs,(List.append_nil _).symm,fun h => absurd hended h⟩
    · refine ⟨[.sent item],?_⟩
      simp only [Logger.State.call,Logger.State.startSend,Logger.State.unboundedSend,if_neg hended]
      exact ⟨hforward.1,hforward.2,fun h => ⟨h,rfl⟩⟩
  | pollNext =>
    have hbare := (Logger.pollNext_toBare (t := t) s).1
    refine ⟨(seen .pollNext (t.call s.inner .pollNext).1).toList,?_,?_,fun h => ?_⟩
    · exact hbare ▸ hforward.1
    · exact (congrArg _ hbare).trans hforward.2
    · exact pollNext_queue h
  | pollReady | pollFlush | pollClose =>
    exact ⟨[],hforward.1,hforward.2,fun h => ⟨h,List.append_nil _⟩⟩

theorem logger_adds (hs : Balanced s.toBare) (h : Logger.step t s a = some u) :
    ∃ more, Adds s u a more := by
  cases a with
  | call c =>
    obtain ⟨-,hu⟩ := Option.ite_none_left_eq_some.mp h
    obtain rfl := Option.some.inj hu
    exact call_adds hs c
  | world f =>
    obtain rfl := Option.some.inj h
    exact ⟨[],hs,(List.append_nil _).symm,fun hu => ⟨hu,List.append_nil _⟩⟩
  | created ok =>
    simp only [Logger.step] at h
    split at h
    · rename_i hcreating
      obtain rfl := Option.some.inj h
      exact ⟨[],hs,(List.append_nil _).symm,
        fun _ => ⟨by rw [hcreating]; simp,List.append_nil _⟩⟩
    · cases h
  | take survives =>
    simp only [Logger.step] at h
    split at h
    · rename_i m queue hlooping hqueue
      obtain rfl := Option.some.inj h
      refine ⟨[],hs,(List.append_nil _).symm,fun hu => ⟨by rw [hlooping]; simp,?_⟩⟩
      cases survives with
      | false => exact absurd rfl hu
      | true =>
        rw [feeds,hqueue,List.append_nil]
        rfl
    · cases h
  | abort =>
    obtain rfl := Option.some.inj h
    exact ⟨[],hs,(List.append_nil _).symm,fun hu => absurd rfl hu⟩

theorem feeds_queue (h : Logger.step t s a = some u) :
    feeds s a = [] ∨ s.task ≠ .ended ∧ feeds s a <+: s.queue := by
  cases a with
  | take survives =>
    cases survives with
    | false => exact Or.inl rfl
    | true =>
      simp only [Logger.step] at h
      split at h
      · rename_i m queue hlooping hqueue
        refine Or.inr ⟨by rw [hlooping]; simp,?_⟩
        rw [feeds,hqueue]
        exact ⟨queue,rfl⟩
      · cases h
  | call c | world f | created ok | abort => exact Or.inl rfl

end

/-! Runs. -/

section
variable {σ Err ε : Type} {codec : LinesCodec ε} {t : Logger.Inner σ Bytes Bytes Err}
variable {s u : State σ Err} {a : Label σ}

def WriteTask.Leaves : WriteTask → List Char → Prop
  | .receiving, rest => rest = []
  | .writing left, rest => rest = left
  | .ended, _ => True

/-- The messages that were taken from the channel are written but for some text, those and the
ones in the channels are the traffic. -/
structure Valid (codec : LinesCodec ε) (s : State σ Err) (done : List Message) : Prop where
  balanced : Balanced s.toBare
  file : ∃ rest, s.file ++ rest = text codec done ∧ s.writeTask.Leaves rest
  order : done ++ s.rx <+: traffic s.toBare
  /-- Nothing is lost as long as both tasks live. -/
  flow : s.task ≠ .ended → s.writeTask ≠ .ended → done ++ s.rx ++ s.queue = traffic s.toBare

theorem init_valid (s₀ : σ) : Valid codec (init s₀ : State σ Err) [] :=
  ⟨rfl,⟨[],rfl,rfl⟩,List.nil_prefix,fun _ _ => rfl⟩

theorem logger_valid {done : List Message} {a : Logger.Label σ Bytes} (hs : Valid codec s done)
    (h : step codec t s (.logger a) = some u) : Valid codec u done := by
  obtain ⟨v,hv,rfl⟩ := Option.map_eq_some_iff.mp h
  obtain ⟨more,hadds⟩ := logger_adds hs.balanced hv
  refine ⟨hadds.balanced,hs.file,?_,fun htask hwrite => ?_⟩
  · show done ++ (if s.writeTask = .ended then s.rx else s.rx ++ feeds s.toState a) <+:
      traffic v.toBare
    rw [hadds.traffic]
    refine List.IsPrefix.trans ?_ (List.prefix_append _ _)
    split_ifs with hended
    · exact hs.order
    · rcases feeds_queue hv with hnone | ⟨htask,hqueue⟩
      · rw [hnone,List.append_nil]
        exact hs.order
      · rw [← hs.flow htask hended,← List.append_assoc]
        exact (List.prefix_append_right_inj _).mpr hqueue
  · show done ++ (if s.writeTask = .ended then s.rx else s.rx ++ feeds s.toState a) ++ v.queue =
      traffic v.toBare
    obtain ⟨htask',hqueue⟩ := hadds.queue htask
    rw [if_neg hwrite,hadds.traffic,← hs.flow htask' hwrite,List.append_assoc _ s.queue,hqueue]
    simp only [List.append_assoc]

theorem step_valid {done : List Message} (hs : Valid codec s done)
    (h : step codec t s a = some u) : ∃ done', Valid codec u done' := by
  cases a with
  | logger a => exact ⟨done,logger_valid hs h⟩
  | next =>
    simp only [step] at h
    obtain ⟨rest,hfile,hleaves⟩ := hs.file
    split at h
    · rename_i m rx hreceiving hrx
      obtain rfl := Option.some.inj h
      rw [hreceiving] at hleaves
      obtain rfl : rest = [] := hleaves
      have hsame : done ++ [m] ++ rx = done ++ s.rx := by rw [hrx,List.append_assoc]; rfl
      refine ⟨done ++ [m],hs.balanced,⟨_,?_,rfl⟩,?_,fun htask _ => ?_⟩
      · rw [text,List.flatMap_append,List.flatMap_singleton,← text,← hfile,List.append_nil]
      · show done ++ [m] ++ rx <+: _
        exact hsame ▸ hs.order
      · show done ++ [m] ++ rx ++ s.queue = _
        exact hsame ▸ hs.flow htask (by rw [hreceiving]; simp)
    · obtain ⟨-,hsome⟩ := Option.ite_none_right_eq_some.mp h
      obtain rfl := Option.some.inj hsome
      exact ⟨done,hs.balanced,⟨rest,hfile,trivial⟩,hs.order,fun _ hwrite => absurd rfl hwrite⟩
    · cases h
  | write n =>
    simp only [step] at h
    split at h
    · rename_i left hwriting
      obtain ⟨-,hsome⟩ := Option.ite_none_right_eq_some.mp h
      obtain rfl := Option.some.inj hsome
      obtain ⟨rest,hfile,hleaves⟩ := hs.file
      rw [hwriting] at hleaves
      obtain rfl : rest = left := hleaves
      refine ⟨done,hs.balanced,⟨rest.drop n,?_,?_⟩,hs.order,fun htask _ => ?_⟩
      · rw [List.append_assoc,List.take_append_drop,hfile]
      · show WriteTask.Leaves (if rest.drop n = [] then _ else _) _
        split_ifs with hdone
        · exact hdone
        · rfl
      · exact hs.flow htask (by rw [hwriting]; simp)
    · cases h
  | writeError =>
    simp only [step] at h
    split at h
    · obtain rfl := Option.some.inj h
      obtain ⟨rest,hfile,-⟩ := hs.file
      refine ⟨done,hs.balanced,⟨rest,hfile,trivial⟩,?_,fun _ hwrite => absurd rfl hwrite⟩
      rw [List.append_nil]
      exact (List.prefix_append _ _).trans hs.order
    · cases h

theorem run_valid {s₀ : σ} {as : List (Label σ)}
    (h : Transition.run (step codec t) (init s₀) as = some s) : ∃ done, Valid codec s done :=
  Transition.run_invariant (I := fun s => ∃ done, Valid codec s done)
    (fun _ _ _ ⟨_,hs⟩ h => step_valid hs h) ⟨[],init_valid s₀⟩ h

/-! The log catches up. -/

/-- A step of the two tasks, in which nothing fails. -/
def Label.isTask : Label σ → Prop
  | .logger (.created true) | .logger (.take true) | .next | .write _ => True
  | _ => False

variable (codec t) in
theorem leads_receiving (hwrite : s.writeTask ≠ .ended) :
    ∃ u, Leads (step codec t) Label.isTask s u ∧ u.toState = s.toState ∧ u.rx = s.rx ∧
      u.writeTask = .receiving := by
  cases hcase : s.writeTask with
  | receiving => exact ⟨s,.refl,rfl,rfl,hcase⟩
  | ended => exact absurd hcase hwrite
  | writing rest =>
    have hstep : step codec t s (.write rest.length) = some { s with
        file := s.file ++ rest, writeTask := .receiving } := by
      simp [step,hcase]
    exact ⟨_,.single (a := .write rest.length) trivial hstep,rfl,rfl,rfl⟩

variable (codec t) in
theorem leads_written (hwrite : s.writeTask ≠ .ended) :
    ∃ u, Leads (step codec t) Label.isTask s u ∧ u.toState = s.toState ∧ u.rx = [] ∧
      u.writeTask = .receiving := by
  generalize hrx : s.rx = rx
  induction rx generalizing s with
  | nil =>
    obtain ⟨u,hsu,hstate,hu,hreceiving⟩ := leads_receiving codec t hwrite
    exact ⟨u,hsu,hstate,hu.trans hrx,hreceiving⟩
  | cons m rx ih =>
    obtain ⟨u,hsu,hstate,hu,hreceiving⟩ := leads_receiving codec t hwrite
    have hnext : step codec t u .next = some { u with
        rx := rx, writeTask := .writing (codec.encode m.display) } := by
      simp only [step,hreceiving,hu,hrx]
    obtain ⟨v,huv,hstate',hv⟩ := ih (s := { u with
      rx := rx, writeTask := .writing (codec.encode m.display) }) (by simp) rfl
    exact ⟨v,hsu.trans ((Leads.single (a := .next) trivial hnext).trans huv),
      hstate'.trans hstate,hv⟩

variable (codec) in
theorem leads_logger {v : Logger.State σ Bytes Bytes Err} {a : Logger.Label σ Bytes}
    (ha : Label.isTask (.logger a)) (h : Logger.step t s.toState a = some v) :
    ∃ u, Leads (step codec t) Label.isTask s u ∧ u.toState = v ∧ u.writeTask = s.writeTask := by
  have hstep : step codec t s (.logger a) = some { s with
      toState := v
      rx := if s.writeTask = .ended then s.rx else s.rx ++ feeds s.toState a } := by
    rw [step,h]
    rfl
  exact ⟨_,.single ha hstep,rfl,rfl⟩

variable (codec t) in
theorem leads_taken (htask : s.task = .looping) :
    ∃ u, Leads (step codec t) Label.isTask s u ∧ u.toBare = s.toBare ∧ u.queue = [] ∧
      u.writeTask = s.writeTask ∧ u.task = .looping := by
  generalize hqueue : s.queue = queue
  induction queue generalizing s with
  | nil => exact ⟨s,.refl,rfl,hqueue,rfl,htask⟩
  | cons m queue ih =>
    have htake : Logger.step t s.toState (.take true) =
        some { s.toState with queue := queue, task := .looping } := by
      simp only [Logger.step,htask,hqueue,if_true]
    obtain ⟨u,hsu,hu,hwrite⟩ := leads_logger codec (a := .take true) trivial htake
    obtain ⟨v,huv,hbare,hv,hwrite',hlooping⟩ := ih (s := u) (by rw [hu]) (by rw [hu])
    exact ⟨v,hsu.trans huv,hbare.trans (by rw [hu]),hv,hwrite'.trans hwrite,hlooping⟩

variable (codec t) in
theorem leads_looping (htask : s.task ≠ .ended) :
    ∃ u, Leads (step codec t) Label.isTask s u ∧ u.toBare = s.toBare ∧
      u.writeTask = s.writeTask ∧ u.task = .looping := by
  cases hcase : s.task with
  | looping => exact ⟨s,.refl,rfl,rfl,hcase⟩
  | ended => exact absurd hcase htask
  | creating =>
    have hcreated : Logger.step t s.toState (.created true) =
        some { s.toState with task := .looping } := by
      simp [Logger.step,hcase]
    obtain ⟨u,hsu,hu,hwrite⟩ := leads_logger codec (a := .created true) trivial hcreated
    exact ⟨u,hsu,by rw [hu],hwrite,by rw [hu]⟩

/-- What is read of the file of any run, or of a part of it, are messages of the traffic from its
beginning, each one whole, and perhaps one more that is cut; while both tasks live they can bring
all of the traffic to the file. -/
theorem log_reads_back (hcodec : codec.Documented) {s₀ : σ} {as : List (Label σ)}
    (h : Transition.run (step codec t) (init s₀) as = some s) :
    (∀ file, file <+: s.file → ∃ (done : List Message) (last : Option Message),
      fromReader codec file = done ++ last.toList ∧ done <+: traffic s.toBare ∧
      ∀ m ∈ last, ∃ next, done ++ [next] <+: traffic s.toBare ∧ m.CutOf next) ∧
    (s.task ≠ .ended → s.writeTask ≠ .ended → ∃ u, Leads (step codec t) Label.isTask s u ∧
      u.toBare = s.toBare ∧ fromReader codec u.file = traffic s.toBare) := by
  obtain ⟨done,hs⟩ := run_valid h
  constructor
  · intro file hfile
    obtain ⟨rest,hrest,-⟩ := hs.file
    obtain ⟨front,last,hread,hfront,hlast⟩ :=
      read_cut hcodec (hfile.trans ⟨rest,hrest⟩)
    have hdone : done <+: traffic s.toBare := (List.prefix_append _ _).trans hs.order
    refine ⟨front,last,hread,hfront.trans hdone,fun m hm => ?_⟩
    obtain ⟨next,hnext,hcut⟩ := hlast m hm
    exact ⟨next,hnext.trans hdone,hcut⟩
  · intro htask hwrite
    obtain ⟨u₁,hsu₁,hbare₁,hwrite₁,hlooping⟩ := leads_looping codec t htask
    obtain ⟨u₂,hu₁₂,hbare₂,hqueue,hwrite₂,hlooping₂⟩ := leads_taken codec t hlooping
    obtain ⟨u,hu₂u,hstate,hrx,hreceiving⟩ :=
      leads_written codec t (s := u₂) (by rw [hwrite₂,hwrite₁]; exact hwrite)
    have hsu := hsu₁.trans (hu₁₂.trans hu₂u)
    obtain ⟨done',hu⟩ := hsu.invariant (I := fun s => ∃ done, Valid codec s done)
      (fun _ _ _ ⟨_,hs⟩ _ h => step_valid hs h) ⟨done,hs⟩
    have hbare : u.toBare = s.toBare := by rw [hstate,hbare₂,hbare₁]
    refine ⟨u,hsu,hbare,?_⟩
    have hflow := hu.flow (by rw [hstate,hlooping₂]; simp) (by rw [hreceiving]; simp)
    rw [hrx,hstate,hqueue,List.append_nil,List.append_nil,← hstate,hbare] at hflow
    obtain ⟨rest,hfile,hleaves⟩ := hu.file
    rw [hreceiving] at hleaves
    obtain rfl : rest = [] := hleaves
    rw [← List.append_nil u.file,hfile,read_whole hcodec,hflow]

/-- The commands that are read of a file that is cut are those that were sent first, no one of
them cut; so are the bytes of a bulk load. -/
theorem log_keeps_commands (hcodec : codec.Documented) {s₀ : σ} {as : List (Label σ)}
    (h : Transition.run (step codec t) (init s₀) as = some s) {cmds : List Commands}
    (hcmds : sentCommands (traffic s.toBare) = .ok cmds) {file : List Char}
    (hfile : file <+: s.file) (skip : Option ℕ) :
    (∃ front, sentCommands (fromReader codec file) = .ok front ∧ front <+: cmds) ∧
    ∃ bytes, dump skip (fromReader codec file) = .ok bytes ∧
      bytes <+: (cmds.filterMap bulkLoad).flatten.drop (skip.getD 0) := by
  obtain ⟨done,hs⟩ := run_valid h
  obtain ⟨rest,hrest,-⟩ := hs.file
  obtain ⟨front,last,hread,hfront,hlast⟩ := read_cut hcodec (hfile.trans ⟨rest,hrest⟩)
  obtain ⟨all,hall,hpre⟩ := sentCommands_prefix ((List.prefix_append _ _).trans hs.order) hcmds
  obtain ⟨part,hpart,hpre'⟩ := sentCommands_cut hfront hlast hall
  rw [hread]
  exact ⟨⟨part,hpart,hpre'.trans hpre⟩,dump_mono skip (hpre'.trans hpre) hpart⟩

end

/-! A file of plain lines. -/

def plainLines : LinesCodec Empty where
  encode line := line ++ ['\n']
  decode text := (Line.ofText text).map .ok

theorem ofText_unbroken {rest : Line} (h : Line.Unbroken rest) :
    Line.ofText rest = if rest = [] then [] else [rest] := by
  induction rest with
  | nil => rfl
  | cons c rest ih =>
    simp only [Line.Unbroken,List.mem_cons,not_or] at h
    obtain ⟨⟨hn,hrest⟩,hr,hrest'⟩ := h
    rw [Line.ofText,ih ⟨hrest,hrest'⟩]
    · cases rest with
      | nil => rfl
      | cons c' rest => rfl
    · rintro _ rfl
      exact absurd rfl hr
    · exact Ne.symm hn

theorem plainLines_documented : plainLines.Documented where
  encode_eq _ := rfl
  decode_eq lines rest hlines hrest := by
    have htext : Line.ofText (lines.flatMap plainLines.encode ++ rest) =
        lines ++ Line.ofText rest := by
      induction lines with
      | nil => rfl
      | cons line lines ih =>
        obtain ⟨hline,hlines⟩ := List.forall_mem_cons.mp hlines
        rw [List.flatMap_cons,List.append_assoc]
        refine Eq.trans ?_ (congrArg (line :: ·) (ih hlines))
        show Line.ofText (line ++ ['\n'] ++ _) = _
        rw [List.append_assoc]
        exact Line.ofText_line hline _
    show (Line.ofText _).map _ = _
    rw [htext,ofText_unbroken hrest,List.map_append]
    split_ifs <;> rfl

/-- Two frames are sent, and the text of the second is written in part. -/
theorem log_reads_back_cut : ∃ s : State Unit MiniDSPError,
    Transition.run (step plainLines Logger.quiet) (init ())
      [.logger (.call (.startSend [2,0x31,0x33])),.logger (.created true),.logger (.take true),
        .next,.write 13,.logger (.call (.startSend [2,0x17,0x19])),.logger (.take true),.next,
        .write 10] = some s ∧
    (∃ (done : List Message) (last : Option Message),
      fromReader plainLines s.file = done ++ last.toList ∧ done <+: traffic s.toBare ∧
      ∀ m ∈ last, ∃ next, done ++ [next] <+: traffic s.toBare ∧ m.CutOf next) ∧
    fromReader plainLines s.file = [.sent [2,0x31,0x33],.sent [2,0x17]] ∧
    ∃ u, Leads (step plainLines Logger.quiet) Label.isTask s u ∧
      fromReader plainLines u.file = [.sent [2,0x31,0x33],.sent [2,0x17,0x19]] := by
  obtain ⟨hpart,hcatch⟩ := @log_reads_back Unit MiniDSPError Empty plainLines Logger.quiet _
    plainLines_documented () [.logger (.call (.startSend [2,0x31,0x33])),.logger (.created true),
      .logger (.take true),.next,.write 13,.logger (.call (.startSend [2,0x17,0x19])),
      .logger (.take true),.next,.write 10] rfl
  obtain ⟨u,hu,-,hread⟩ := hcatch (by decide) (by decide)
  exact ⟨_,rfl,hpart _ List.prefix_rfl,rfl,u,hu,hread⟩

/-- The last line of a bulk load is cut before the checksum of its frame. -/
theorem log_keeps_commands_cut : ∃ s : State Unit MiniDSPError,
    Transition.run (step plainLines Logger.quiet) (init ())
      [.logger (.created true),.logger (.call (.startSend (Packet.frame [0x12,4,7]))),
        .logger (.take true),.next,.write 17,
        .logger (.call (.startSend (Packet.frame [0x12,8]))),.logger (.take true),.next,
        .write 12] = some s ∧
    (∃ bytes, dump (some 1) (fromReader plainLines s.file) = .ok bytes ∧ bytes <+: [7,8]) ∧
    dump (some 1) (fromReader plainLines s.file) = .ok [7,8] :=
  ⟨_,rfl,(@log_keeps_commands Unit MiniDSPError Empty plainLines Logger.quiet _
    plainLines_documented () [.logger (.created true),
      .logger (.call (.startSend (Packet.frame [0x12,4,7]))),.logger (.take true),.next,.write 17,
      .logger (.call (.startSend (Packet.frame [0x12,8]))),.logger (.take true),.next,.write 12] rfl
    [.bulkLoad [4,7],.bulkLoad [8]] rfl _ List.prefix_rfl (some 1)).2,rfl⟩

end Recorder
end Minidsp
