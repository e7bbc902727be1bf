import River2.Firmware
import River2.Library.OneShot

/-!
# The pushbuttons (`pushbutton.c`)

1. The code over an ideal `esp_timer`: `pushbuttonInit`, `pushbuttonIsrHandler` and
   `pushbuttonDebounceCb`; `Pushbutton.machine` runs them against the edges of the pin.
2. `Waveform`: cycles of a press and a release whose bouncing is over within the debounce time.
3. `PinPhase` says where in its cycle the pin is and when the timer is due; `pinPhase_step`: every
   step goes from one phase to the next.
4. `one_post_per_cycle`: a button posts once for each cycle, the debounce time after its release has
   settled.
-/

namespace River2

variable {T : Type*} [CommRing T]

/-! ## The code -/

def debounceUs : T := 25000

/-- `gpio_int_type_t`, as far as it is used. -/
inductive GpioIntr where
  | disable
  | posedge
  deriving DecidableEq

/-- `pushbutton_t`, with its pin, its timer and what its owner has been notified of. -/
structure Pushbutton (T : Type*) where
  eventMask : UInt32
  intrType : GpioIntr
  /-- `pushbutton_isr_handler` has been added for the pin -/
  handled : Bool
  /-- the level of the pin -/
  level : Bool
  /-- `debounce_timer` exists -/
  created : Bool
  /-- when it expires, if it is running -/
  timer : Option T
  /-- the notifications: the time and the bits -/
  posts : List (T × UInt32)

/-- `esp_timer_stop`. -/
def timerStop (btn : Pushbutton T) : Pushbutton T := { btn with timer := none }

/-- `esp_timer_start_once`, which fails if there is no timer or it is running. -/
def timerStartOnce (now timeout : T) (btn : Pushbutton T) : Pushbutton T :=
  if btn.created ∧ btn.timer = none then { btn with timer := some (now + timeout) } else btn

/-- `pushbutton_isr_handler`. -/
def pushbuttonIsrHandler (now : T) (btn : Pushbutton T) : Pushbutton T :=
  timerStartOnce now debounceUs (timerStop btn)

/-- `pushbutton_debounce_cb`. -/
def pushbuttonDebounceCb (now : T) (btn : Pushbutton T) : Pushbutton T :=
  if btn.level then { btn with posts := btn.posts ++ [(now, btn.eventMask)] } else btn

/-- `pushbutton_init`, with what `gpio_config`, `esp_timer_create` and `gpio_isr_handler_add`
return: the error, and the button as the call leaves it. -/
def pushbuttonInit (eventMask : UInt32) (gpioErr createErr addErr : EspErr) :
    Option (Pushbutton T) → EspErr × Option (Pushbutton T)
  | none => (.invalidArg, none)
  | some btn =>
    let btn := { btn with eventMask := eventMask }
    if gpioErr ≠ .ok then (gpioErr, some btn)
    else
      let btn := { btn with intrType := .posedge }
      if createErr ≠ .ok then (createErr, some btn)
      else
        let btn := { btn with created := true, timer := none }
        if addErr ≠ .ok then (addErr, some { btn with created := false })
        else (.ok, some { btn with handled := true })

/-- The pin takes a level: a rising edge interrupts. -/
def Pushbutton.edge (now : T) (level : Bool) (btn : Pushbutton T) : Pushbutton T :=
  let rising := !btn.level && level
  let btn := { btn with level := level }
  if rising ∧ btn.intrType = .posedge ∧ btn.handled then pushbuttonIsrHandler now btn else btn

/-- The button against the edges of its pin. -/
def Pushbutton.machine : OneShot.Machine T Bool (Pushbutton T) where
  due := Pushbutton.timer
  input := Pushbutton.edge
  expire := fun now btn => pushbuttonDebounceCb now { btn with timer := none }
  due_expire := fun now btn => by
    unfold pushbuttonDebounceCb
    split_ifs <;> rfl

/-! ## A button that is set up -/

/-- A button that `pushbutton_init` has set up. -/
def ready (mask : UInt32) (level : Bool) (timer : Option T) (posts : List (T × UInt32)) :
    Pushbutton T :=
  ⟨mask, .posedge, true, level, true, timer, posts⟩

section Ready

variable {mask : UInt32} {timer : Option T} {posts : List (T × UInt32)} {now : T}

omit [CommRing T] in
theorem pushbuttonInit_ok {gpioErr createErr addErr : EspErr} {btn₀ btn : Pushbutton T}
    (hinit : pushbuttonInit mask gpioErr createErr addErr (some btn₀) = (.ok, some btn)) :
    btn = ready mask btn₀.level none btn₀.posts := by
  unfold pushbuttonInit at hinit
  dsimp only at hinit
  split_ifs at hinit with hgpio hcreate hadd
  · exact absurd (Prod.mk.inj hinit).1 hgpio
  · exact absurd (Prod.mk.inj hinit).1 hcreate
  · exact absurd (Prod.mk.inj hinit).1 hadd
  · exact (Option.some.inj (Prod.mk.inj hinit).2).symm

theorem input_fall : Pushbutton.machine.input now false (ready mask true timer posts) =
    ready mask false timer posts := rfl

theorem input_rise : Pushbutton.machine.input now true (ready mask false timer posts) =
    ready mask true (some (now + debounceUs)) posts := rfl

theorem expire_high : Pushbutton.machine.expire now (ready mask true timer posts) =
    ready mask true none (posts ++ [(now, mask)]) := rfl

theorem expire_low : Pushbutton.machine.expire now (ready mask false timer posts) =
    ready mask false none posts := rfl

end Ready

/-! ## Waveforms -/

variable [LinearOrder T]

/-- A press, with the rises and falls of the bouncing behind it, and a release, with the falls and
rises of the bouncing behind it. -/
structure Cycle (T : Type*) where
  press : T
  pressBounce : List (T × T)
  release : T
  releaseBounce : List (T × T)

namespace Cycle

def pressEdges (bounce : List (T × T)) : List (T × Bool) :=
  bounce.flatMap fun e => [(e.1, true), (e.2, false)]

def releaseEdges (bounce : List (T × T)) : List (T × Bool) :=
  bounce.flatMap fun e => [(e.1, false), (e.2, true)]

/-- The edges of a cycle, each with the level behind it. -/
def edges (c : Cycle T) : List (T × Bool) :=
  (c.press, false) :: (pressEdges c.pressBounce ++
    (c.release, true) :: releaseEdges c.releaseBounce)

/-- The last rise of some bouncing behind a rise. -/
def lastRise (rise : T) : List (T × T) → T
  | [] => rise
  | e :: bounce => lastRise e.2 bounce

/-- When the release has settled. -/
def settled (c : Cycle T) : T := lastRise c.release c.releaseBounce

/-- The edges are at distinct times in their order, and the bouncing lasts less than the debounce
time. -/
structure Valid (c : Cycle T) : Prop where
  ordered : (c.edges.map Prod.fst).Pairwise (· < ·)
  pressSettles : ∀ e ∈ pressEdges c.pressBounce, e.1 < c.press + debounceUs
  releaseSettles : ∀ e ∈ releaseEdges c.releaseBounce, e.1 < c.release + debounceUs

end Cycle

/-- The edges of a pin that starts high. -/
structure Waveform (T : Type*) [CommRing T] [LinearOrder T] where
  cycles : List (Cycle T)
  valid : ∀ c ∈ cycles, c.Valid
  /-- behind a release that has settled, the pin stays high for more than the debounce time -/
  apart : cycles.IsChain fun c c' => c.settled + debounceUs < c'.press

def Waveform.edges (w : Waveform T) : List (T × Bool) := w.cycles.flatMap Cycle.edges

namespace Cycle.Valid

variable {c : Cycle T}

theorem press_lt (hc : c.Valid) : ∀ e ∈ pressEdges c.pressBounce, c.press < e.1 := by
  intro e he
  have hordered := hc.ordered
  unfold Cycle.edges at hordered
  rw [List.map_cons, List.pairwise_cons] at hordered
  exact hordered.1 e.1 (List.mem_map_of_mem (List.mem_append_left _ he))

theorem press_lt_release (hc : c.Valid) : c.press < c.release := by
  have hordered := hc.ordered
  unfold Cycle.edges at hordered
  rw [List.map_cons, List.pairwise_cons] at hordered
  exact hordered.1 c.release
    (List.mem_map_of_mem (f := Prod.fst) (List.mem_append_right _ List.mem_cons_self))

theorem release_lt (hc : c.Valid) : ∀ e ∈ releaseEdges c.releaseBounce, c.release < e.1 := by
  intro e he
  have hordered := hc.ordered
  unfold Cycle.edges at hordered
  rw [List.map_cons, List.pairwise_cons, List.map_append, List.pairwise_append, List.map_cons,
    List.pairwise_cons] at hordered
  exact hordered.2.2.1.1 e.1 (List.mem_map_of_mem he)

end Cycle.Valid

omit [CommRing T] in
theorem Cycle.le_lastRise {t rise : T} {bounce : List (T × T)} (hrise : t ≤ rise)
    (hbounce : ∀ e ∈ bounce, t ≤ e.2) : t ≤ lastRise rise bounce := by
  induction bounce generalizing rise with
  | nil => exact hrise
  | cons e bounce ih =>
    exact ih (hbounce e List.mem_cons_self) fun e' he' => hbounce e' (List.mem_cons_of_mem _ he')

/-! ## Phases -/

section Bouncing

omit [CommRing T] [LinearOrder T]

theorem Cycle.mem_pressEdges {bounce : List (T × T)} {e : T × T} (he : e ∈ bounce) :
    (e.1, true) ∈ pressEdges bounce ∧ (e.2, false) ∈ pressEdges bounce :=
  ⟨List.mem_flatMap.mpr ⟨e, he, by simp⟩, List.mem_flatMap.mpr ⟨e, he, by simp⟩⟩

theorem Cycle.mem_releaseEdges {bounce : List (T × T)} {e : T × T} (he : e ∈ bounce) :
    (e.1, false) ∈ releaseEdges bounce ∧ (e.2, true) ∈ releaseEdges bounce :=
  ⟨List.mem_flatMap.mpr ⟨e, he, by simp⟩, List.mem_flatMap.mpr ⟨e, he, by simp⟩⟩

end Bouncing

/-- The notification for a cycle. -/
def Cycle.notice (mask : UInt32) (c : Cycle T) : T × UInt32 := (c.settled + debounceUs, mask)

/-- Where the pin is in its cycle, what is still to come, and when the timer is due. -/
inductive PinPhase (w : Waveform T) (mask : UInt32) : List (T × Bool) × Pushbutton T → Prop
  /-- between cycles -/
  | up {done rest : List (Cycle T)} (hcycles : w.cycles = done ++ rest) :
    PinPhase w mask (rest.flatMap Cycle.edges, ready mask true none (done.map (Cycle.notice mask)))
  /-- behind a fall of a press -/
  | pressed {done rest : List (Cycle T)} {c : Cycle T} {bounce : List (T × T)} {timer : Option T}
    (hcycles : w.cycles = done ++ c :: rest) (hbounce : bounce <:+ c.pressBounce) :
    PinPhase w mask
      (Cycle.pressEdges bounce ++
        (c.release, true) :: (Cycle.releaseEdges c.releaseBounce ++ rest.flatMap Cycle.edges),
        ready mask false timer (done.map (Cycle.notice mask)))
  /-- behind a rise of a press: the pin falls before the timer is due -/
  | pressBounced {done rest : List (Cycle T)} {c : Cycle T} {fall d : T} {bounce : List (T × T)}
    (hcycles : w.cycles = done ++ c :: rest) (hbounce : bounce <:+ c.pressBounce)
    (hfall : fall < d) :
    PinPhase w mask
      ((fall, false) :: (Cycle.pressEdges bounce ++
        (c.release, true) :: (Cycle.releaseEdges c.releaseBounce ++ rest.flatMap Cycle.edges)),
        ready mask true (some d) (done.map (Cycle.notice mask)))
  /-- behind a rise of a release -/
  | released {done rest : List (Cycle T)} {c : Cycle T} {rise : T} {bounce : List (T × T)}
    (hcycles : w.cycles = done ++ c :: rest) (hbounce : bounce <:+ c.releaseBounce)
    (hrise : c.release ≤ rise) (hlast : Cycle.lastRise rise bounce = c.settled) :
    PinPhase w mask
      (Cycle.releaseEdges bounce ++ rest.flatMap Cycle.edges,
        ready mask true (some (rise + debounceUs)) (done.map (Cycle.notice mask)))
  /-- behind a fall of a release: the pin rises before the timer is due -/
  | releaseBounced {done rest : List (Cycle T)} {c : Cycle T} {rise d : T} {bounce : List (T × T)}
    (hcycles : w.cycles = done ++ c :: rest) (hbounce : bounce <:+ c.releaseBounce)
    (hrise : c.release ≤ rise) (hlast : Cycle.lastRise rise bounce = c.settled) (hdue : rise < d) :
    PinPhase w mask
      ((rise, true) :: (Cycle.releaseEdges bounce ++ rest.flatMap Cycle.edges),
        ready mask false (some d) (done.map (Cycle.notice mask)))

section Steps

variable {w : Waveform T} {mask : UInt32} {done rest : List (Cycle T)}
  {c : Cycle T} {bounce : List (T × T)} {s s' : List (T × Bool) × Pushbutton T}

theorem Waveform.valid_of_cycles (hcycles : w.cycles = done ++ c :: rest) : c.Valid :=
  w.valid c (by rw [hcycles]; exact List.mem_append_right _ List.mem_cons_self)

/-- The next press comes when the timer of a settled release has expired. -/
theorem Waveform.expires_first (hcycles : w.cycles = done ++ c :: rest) :
    ∀ e ∈ (rest.flatMap Cycle.edges).head?, c.settled + debounceUs < e.1 := by
  have hapart := w.apart
  rw [hcycles] at hapart
  cases rest with
  | nil => exact fun e he => absurd he (by simp)
  | cons c' rest =>
    intro e he
    obtain rfl : (c'.press, false) = e := Option.some.inj he
    exact (List.isChain_cons_cons.mp hapart.right_of_append).1

theorem PinPhase.posts_cases (hphase : PinPhase w mask s) :
    ∃ done rest, w.cycles = done ++ rest ∧ s.2.posts = done.map (Cycle.notice mask) ∧
      (s.1 = [] → s.2.timer = none → rest = []) := by
  cases hphase with
  | @up done rest hcycles =>
    refine ⟨done, rest, hcycles, rfl, fun hpending _ => ?_⟩
    cases rest with
    | nil => rfl
    | cons c rest => cases hpending
  | @pressed done rest c bounce timer hcycles _ =>
    exact ⟨done, c :: rest, hcycles, rfl, fun hpending => by simp at hpending⟩
  | @pressBounced done rest c _ _ _ hcycles _ _ => exact ⟨done, c :: rest, hcycles, rfl, nofun⟩
  | @released done rest c _ _ hcycles _ _ _ => exact ⟨done, c :: rest, hcycles, rfl, nofun⟩
  | @releaseBounced done rest c _ _ _ hcycles _ _ _ _ =>
    exact ⟨done, c :: rest, hcycles, rfl, nofun⟩

variable [IsStrictOrderedRing T]

/-- A rise of a press is followed by a fall before its timer is due. -/
theorem Waveform.falls_before_due (hcycles : w.cycles = done ++ c :: rest) {e : T × T}
    (hbounce : e :: bounce <:+ c.pressBounce) : e.2 < e.1 + debounceUs := by
  have hc := Waveform.valid_of_cycles hcycles
  have hmem := Cycle.mem_pressEdges (hbounce.subset List.mem_cons_self)
  have hpress := hc.press_lt _ hmem.1
  have hfall := hc.pressSettles _ hmem.2
  dsimp only at hpress hfall
  linarith

/-- The edges of a release come before the timer of each of its rises is due. -/
theorem Waveform.edges_before_due (hcycles : w.cycles = done ++ c :: rest) {e : T × T} {rise : T}
    (hbounce : e :: bounce <:+ c.releaseBounce) (hrise : c.release ≤ rise) :
    e.1 < rise + debounceUs ∧ e.2 < rise + debounceUs ∧ c.release ≤ e.2 := by
  have hc := Waveform.valid_of_cycles hcycles
  have hmem := Cycle.mem_releaseEdges (hbounce.subset List.mem_cons_self)
  have hfall := hc.releaseSettles _ hmem.1
  have hrise' := hc.releaseSettles _ hmem.2
  dsimp only at hfall hrise'
  exact ⟨by linarith, by linarith, (hc.release_lt _ hmem.2).le⟩

/-- **A step** goes from one phase to the next. -/
theorem pinPhase_step (hphase : PinPhase w mask s) (hstep : OneShot.Step Pushbutton.machine s s') :
    PinPhase w mask s' := by
  cases hphase with
  | @up done rest hcycles =>
    rcases OneShot.step_cases hstep with ⟨now, level, pending, heq, -, rfl⟩ | ⟨d, hdue, -⟩
    · cases rest with
      | nil => cases heq
      | cons c rest =>
        rw [List.flatMap_cons, Cycle.edges, List.cons_append, List.append_assoc,
          List.cons_append] at heq
        cases heq
        rw [input_fall]
        exact .pressed hcycles List.suffix_rfl
    · cases hdue
  | @pressed done rest c bounce timer hcycles hbounce =>
    rcases OneShot.step_cases hstep with ⟨now, level, pending, heq, -, rfl⟩ | ⟨d, -, -, rfl⟩
    · cases bounce with
      | nil =>
        cases heq
        rw [input_rise]
        exact .released hcycles List.suffix_rfl le_rfl rfl
      | cons e bounce =>
        rw [Cycle.pressEdges, List.flatMap_cons] at heq
        cases heq
        rw [input_rise]
        exact .pressBounced hcycles ((List.suffix_cons e bounce).trans hbounce)
          (Waveform.falls_before_due hcycles hbounce)
    · rw [expire_low]
      exact .pressed hcycles hbounce
  | pressBounced hcycles hbounce hfall =>
    rw [OneShot.step_of_input_lt hstep rfl hfall, input_fall]
    exact .pressed hcycles hbounce
  | @released done rest c rise bounce hcycles hbounce hrise hlast =>
    cases bounce with
    | nil =>
      obtain rfl : rise = c.settled := hlast
      rw [OneShot.step_of_expire_lt hstep rfl (Waveform.expires_first hcycles), expire_high]
      have hnext : w.cycles = (done ++ [c]) ++ rest := by
        rw [hcycles, List.append_assoc]
        rfl
      have hup : PinPhase w mask _ := .up hnext
      rwa [List.map_append] at hup
    | cons e bounce =>
      obtain ⟨hfall, hdue, hle⟩ := Waveform.edges_before_due hcycles hbounce hrise
      rw [OneShot.step_of_input_lt hstep rfl hfall, input_fall]
      exact .releaseBounced hcycles ((List.suffix_cons e bounce).trans hbounce) hle hlast hdue
  | releaseBounced hcycles hbounce hrise hlast hdue =>
    rw [OneShot.step_of_input_lt hstep rfl hdue, input_rise]
    exact .released hcycles hbounce hrise hlast

theorem Cycle.Valid.release_lt_notice (hc : c.Valid) : c.release < (c.notice mask).1 := by
  have hsettled : c.release ≤ c.settled :=
    Cycle.le_lastRise le_rfl fun e he => (hc.release_lt _ (Cycle.mem_releaseEdges he).2).le
  have hpos : (0 : T) < debounceUs := by
    unfold debounceUs
    norm_num
  unfold Cycle.notice
  dsimp only
  linarith

/-- **One notification for each cycle.** A button that has been set up while its pin was high, and
any run of it against a waveform: what it has posted are the notifications of the first cycles; when
the run is over they are those of all cycles, and every run can be continued until it is. The
notification of a cycle comes after its release. -/
theorem one_post_per_cycle {gpioErr createErr addErr : EspErr} {btn₀ btn : Pushbutton T}
    (hinit : pushbuttonInit mask gpioErr createErr addErr (some btn₀) = (.ok, some btn))
    (hhigh : btn₀.level = true) (hposts : btn₀.posts = [])
    (hrun : OneShot.Reach Pushbutton.machine (w.edges, btn) s) :
    s.2.posts <+: w.cycles.map (Cycle.notice mask) ∧
    (OneShot.Stuck Pushbutton.machine s → s.2.posts = w.cycles.map (Cycle.notice mask)) ∧
    (∃ s', OneShot.Reach Pushbutton.machine s s' ∧ OneShot.Stuck Pushbutton.machine s') ∧
    ∀ c ∈ w.cycles, c.press < c.release ∧ c.release < (c.notice mask).1 := by
  have hstart : PinPhase w mask (w.edges, btn) := by
    rw [pushbuttonInit_ok hinit, hhigh, hposts]
    exact .up (List.nil_append w.cycles).symm
  obtain ⟨done, rest, hcycles, hdone, hover⟩ :=
    (hrun.invariant hstart fun _ _ => pinPhase_step).posts_cases
  refine ⟨?_, fun hstuck => ?_, OneShot.exists_stuck _ s, fun c hc => ?_⟩
  · rw [hdone, hcycles, List.map_append]
    exact List.prefix_append _ _
  · obtain ⟨hpending, htimer⟩ := OneShot.stuck_iff.mp hstuck
    rw [hdone, hcycles, hover hpending htimer, List.append_nil]
  · exact ⟨(w.valid c hc).press_lt_release, (w.valid c hc).release_lt_notice⟩

end Steps

namespace Sample

/-- A press that bounces, whose timer is due at the release, and a long one. -/
def waveform : Waveform ℤ where
  cycles := [⟨100000, [(101000, 102000)], 126000, [(127000, 128000)]⟩, ⟨200000, [], 500000, []⟩]
  valid := by
    intro c hc
    simp only [List.mem_cons, List.not_mem_nil, or_false] at hc
    rcases hc with rfl | rfl
    · exact ⟨by decide, by decide, by decide⟩
    · exact ⟨by decide, by decide, by decide⟩
  apart := by decide

/-- A button before it is set up, its pin high. -/
def unsetButton : Pushbutton ℤ := ⟨0, .disable, false, true, false, none, []⟩

end Sample

/-- A run over two cycles. -/
theorem one_post_per_cycle_sample : ∃ s,
    OneShot.Reach Pushbutton.machine (Sample.waveform.edges, ready 0x20 true none []) s ∧
    OneShot.Stuck Pushbutton.machine s ∧ s.2.posts = [(153000, 0x20), (525000, 0x20)] := by
  obtain ⟨s, hrun, hstuck⟩ := OneShot.exists_stuck Pushbutton.machine
    (Sample.waveform.edges, ready 0x20 true none [])
  have hinit : pushbuttonInit 0x20 .ok .ok .ok (some Sample.unsetButton) =
      (.ok, some (ready 0x20 true none [])) := rfl
  have hover := (one_post_per_cycle hinit rfl rfl hrun).2.1 hstuck
  exact ⟨s, hrun, hstuck, hover.trans (by decide)⟩

end River2
