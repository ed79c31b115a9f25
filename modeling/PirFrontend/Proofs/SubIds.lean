import Mathlib.Data.List.Induction
import Mathlib.Data.List.TakeWhile
import PirFrontend.Proofs.Growth

/-!
Ids of subroutines. A subroutine gets its id when it is opened, but its place in the unit only when
it is closed: by a command, by the next opening, or at the end of the build. Its place is its id all
the same, for whatever was opened before is closed before.
-/
namespace PirFrontend

/-- The name of the subroutine that a command opens. -/
def Command.opened? : Command → Option String
  | openSub name => some name
  | _ => none

/-- The names of all subroutines that a script opens, in order. -/
def openedNames (script : List Command) : List String := script.filterMap Command.opened?

/-- The id of the subroutine that a script leaves open, which is the last one that it opens. -/
def openId? (script : List Command) : Option Nat :=
  match script.reverse.find? Command.frames with
  | some (.openSub _) => some ((openedNames script).length - 1)
  | _ => none

/-- The ids that the commands of a script answer, and what they find in the unit. -/
structure SubIds (options : BuildOptions) (script : List Command) (unit : CompilationUnit) :
    Prop where
  /-- Each opening answers the number of openings before it. -/
  opens : ∀ front name rest, script = front ++ .openSub name :: rest →
    (((Builder.new options).performAll front).perform (.openSub name)).1 =
      .ok (.subId (some (openedNames front).length))
  /-- A closing answers the id that finds the subroutine it closes, and no id if none is open. -/
  closes : ∀ front rest, script = front ++ .closeSub :: rest →
    let b := (Builder.new options).performAll front
    (b.perform .closeSub).1 = .ok (.subId (openId? front)) ∧
      (openId? front).isSome = b.current.isSome ∧
      (openId? front).bind unit.subroutine? = b.current
  /-- What an id finds is the subroutine of that opening, as it stood before the next command that
  opens or closes one. -/
  found : ∀ front name rest, script = front ++ .openSub name :: rest →
    let body := rest.takeWhile (!·.frames)
    ∃ s, ((Builder.new options).performAll (front ++ .openSub name :: body)).current = some s ∧
      s.name = name ∧ unit.subroutine? (openedNames front).length = some s
  /-- There is a subroutine for each opening, in order, and there are no others. -/
  names : unit.subroutines.map (·.name) = openedNames script

theorem Command.opened?_of_not_frames {command : Command} (h : command.frames = false) :
    command.opened? = none := by
  unfold opened?
  split
  · cases h
  · rfl

theorem openedNames_concat (script : List Command) (command : Command) :
    openedNames (script ++ [command]) = openedNames script ++ command.opened?.toList := by
  unfold openedNames
  rw [List.filterMap_append]
  cases h : command.opened? <;> simp [h]

theorem openId?_concat (script : List Command) (command : Command) :
    openId? (script ++ [command]) =
      if command.frames then command.opened?.map fun _ => (openedNames script).length
      else openId? script := by
  unfold openId?
  rw [openedNames_concat, List.reverse_append, List.reverse_singleton, List.singleton_append,
    List.find?_cons]
  cases hframes : command.frames with
  | false => simp [command.opened?_of_not_frames hframes]
  | true =>
    obtain ⟨name, rfl⟩ | rfl := command.of_frames hframes
    · simp [Command.opened?]
    · rfl

namespace Builder

/-- The id of the open subroutine. -/
def openId? (b : Builder) : Option Nat := b.current.map fun _ => b.unit.subroutines.length

/-- The same subroutines are closed, and if one is open, it still has its name. -/
structure SameFrame (b c : Builder) : Prop where
  closed : c.unit.subroutines = b.unit.subroutines
  current : c.current.map (·.name) = b.current.map (·.name)

variable {supplied : String → Prop} {b c d : Builder}

/-! Commands inside of a subroutine -/

theorem SameFrame.trans (h : b.SameFrame c) (h' : c.SameFrame d) : b.SameFrame d :=
  ⟨h'.closed.trans h.closed, h'.current.trans h.current⟩

theorem Move.sameFrame (h : b.Move supplied c) : b.SameFrame c := by
  cases h with
  | report | spend | instruction | call => exact ⟨rfl, rfl⟩
  | label name hs => exact ⟨rfl, by rw [hs]; rfl⟩
  | declare hs hgains => exact ⟨rfl, by rw [hs]; exact congrArg some hgains.name⟩
  | unit u hgains => exact ⟨hgains.subroutines, rfl⟩

theorem Moves.sameFrame (h : b.Moves supplied c) : b.SameFrame c := by
  induction h with
  | refl => exact ⟨rfl, rfl⟩
  | tail _ hmove ih => exact ih.trans hmove.sameFrame

theorem Stays.sameFrame {r : Except Fatal Reply × Builder} (h : b.Stays supplied r) :
    b.SameFrame r.2 := by
  cases h with
  | moves _ hmoves => exact hmoves.sameFrame
  | emits _ hmoves hemits =>
    cases hemits with
    | emit st _ hs => exact hmoves.sameFrame.trans ⟨rfl, by rw [hs]; rfl⟩
  | line _ hmoves => exact hmoves.sameFrame.trans ⟨rfl, rfl⟩

theorem SameFrame.openId? (h : b.SameFrame c) : c.openId? = b.openId? := by
  have hcurrent := congrArg (Option.map fun _ => b.unit.subroutines.length) h.current
  rw [Option.map_map, Option.map_map] at hcurrent
  unfold Builder.openId?
  rw [h.closed]
  exact hcurrent

theorem SameFrame.names (h : b.SameFrame c) : c.subs.map (·.name) = b.subs.map (·.name) := by
  unfold subs
  rw [List.map_append, List.map_append, h.closed, ← Option.toList_map, ← Option.toList_map,
    h.current]

/-! Opening and closing -/

theorem closeSub_id (b : Builder) : b.closeSub.1 = b.openId? := by
  unfold closeSub openId?
  split
  next hs => rw [hs, Option.map_none]
  next s hs => rw [hs, Option.map_some]

/-- The id of a new subroutine is the number of those before it, be the last of them open or not. -/
theorem openSub_id (b : Builder) (name : String) : (b.openSub name).1 = b.subs.length := by
  rw [← subroutines_closeSub]
  rfl

theorem openId?_openSub (b : Builder) (name : String) :
    (b.openSub name).2.openId? = some b.subs.length := by
  rw [← subroutines_openSub b name]
  rfl

theorem names_openSub (b : Builder) (name : String) :
    (b.openSub name).2.subs.map (·.name) = b.subs.map (·.name) ++ [name] := by
  rw [subs_openSub, List.map_append]
  rfl

theorem subroutines_finish (b : Builder) : b.finish.1.subroutines = b.subs :=
  b.subroutines_closeSub

/-! One command -/

theorem perform_openSub (b : Builder) (name : String) :
    b.perform (.openSub name) = (.ok (.subId (some (b.openSub name).1)), (b.openSub name).2) := rfl

theorem perform_closeSub (b : Builder) :
    b.perform .closeSub = (.ok (.subId b.closeSub.1), b.closeSub.2) := rfl

/-- A command that opens or closes a subroutine closes the one that is open. -/
theorem subroutines_perform {command : Command} (h : command.frames = true) (b : Builder) :
    (b.perform command).2.unit.subroutines = b.subs := by
  obtain ⟨name, rfl⟩ | rfl := command.of_frames h
  · exact b.subroutines_openSub name
  · exact b.subroutines_closeSub

theorem names_perform (b : Builder) (command : Command) :
    (b.perform command).2.subs.map (·.name) =
      b.subs.map (·.name) ++ command.opened?.toList := by
  cases hframes : command.frames with
  | false =>
    rw [(Command.stays_any hframes b).sameFrame.names, command.opened?_of_not_frames hframes,
      Option.toList_none, List.append_nil]
  | true =>
    obtain ⟨name, rfl⟩ | rfl := command.of_frames hframes
    · exact b.names_openSub name
    · rw [perform_closeSub, subs_closeSub]
      exact (List.append_nil _).symm

theorem openId?_perform (b : Builder) (command : Command) :
    (b.perform command).2.openId? =
      if command.frames then command.opened?.map fun _ => b.subs.length else b.openId? := by
  cases hframes : command.frames with
  | false => exact (Command.stays_any hframes b).sameFrame.openId?
  | true =>
    obtain ⟨name, rfl⟩ | rfl := command.of_frames hframes
    · exact b.openId?_openSub name
    · rw [perform_closeSub, Builder.openId?, current_closeSub]
      rfl

/-! Scripts -/

theorem performAll_append (b : Builder) (front back : List Command) :
    b.performAll (front ++ back) = (b.performAll front).performAll back :=
  List.foldl_append

theorem sameFrame_performAll (b : Builder) {body : List Command}
    (h : ∀ command ∈ body, command.frames = false) : b.SameFrame (b.performAll body) := by
  induction body generalizing b with
  | nil => exact ⟨rfl, rfl⟩
  | cons command body ih =>
    have hfirst := (Command.stays_any (h command List.mem_cons_self) b).sameFrame
    exact hfirst.trans (ih _ fun c hc => h c (List.mem_cons_of_mem _ hc))

theorem names_performAll (b : Builder) (script : List Command) :
    (b.performAll script).subs.map (·.name) = b.subs.map (·.name) ++ openedNames script := by
  induction script using List.reverseRecOn with
  | nil => exact (List.append_nil _).symm
  | append_singleton script command ih =>
    rw [performAll_append, openedNames_concat, ← List.append_assoc, ← ih]
    exact names_perform _ command

variable (options : BuildOptions)

theorem subs_length_performAll (script : List Command) :
    ((Builder.new options).performAll script).subs.length = (openedNames script).length := by
  have hnames := congrArg List.length (names_performAll (.new options) script)
  rw [List.length_map] at hnames
  exact hnames

/-- The id of the open subroutine is known from the script. -/
theorem openId?_performAll (script : List Command) :
    ((Builder.new options).performAll script).openId? = PirFrontend.openId? script := by
  -- Whether one is open is decided by the last command that opens or closes one.
  induction script using List.reverseRecOn with
  | nil => rfl
  | append_singleton script command ih =>
    rw [performAll_append, openId?_concat, ← ih, ← subs_length_performAll options]
    exact openId?_perform _ command

/-- A subroutine is closed as it stands when something is opened or closed or the build ends, and
stays at its place. -/
theorem finish_performAll {b : Builder} {s : Subroutine} (hs : b.current = some s)
    {rest : List Command} (hrest : ∀ command ∈ rest.head?, command.frames = true) :
    (b.performAll rest).finish.1.subroutine? b.unit.subroutines.length = some s := by
  -- What follows closes it first, and adds to the closed ones only at their end.
  have hprefix : b.subs <+: (b.performAll rest).subs := by
    cases rest with
    | nil => exact List.prefix_rfl
    | cons command rest =>
      rw [← subroutines_perform (hrest command rfl) b]
      exact (unit_performAll (b.perform command).2 rest).1.trans (List.prefix_append _ _)
  obtain ⟨more, hmore⟩ := hprefix
  rw [CompilationUnit.subroutine?, subroutines_finish, ← hmore, subs, hs]
  simp

/-- The subroutine that is opened grows by the commands up to the next that opens or closes one, and
is stored behind those that were opened before. -/
theorem finish_openSub (b : Builder) (name : String) (rest : List Command) :
    ∃ s, ((b.openSub name).2.performAll (rest.takeWhile (!·.frames))).current = some s ∧
      s.name = name ∧
      ((b.openSub name).2.performAll rest).finish.1.subroutine? b.subs.length = some s := by
  let c := (b.openSub name).2.performAll (rest.takeWhile (!·.frames))
  have hsame : (b.openSub name).2.SameFrame c := by
    refine sameFrame_performAll _ fun command hmem => ?_
    simpa using List.mem_takeWhile_imp hmem
  obtain ⟨s, hs, hname⟩ := Option.map_eq_some_iff.1 hsame.current
  have hhead : ∀ command ∈ (rest.dropWhile (!·.frames)).head?, command.frames = true := by
    intro command hmem
    rw [← List.find?_eq_head?_dropWhile_not] at hmem
    exact List.find?_some hmem
  have hrest : (b.openSub name).2.performAll rest = c.performAll (rest.dropWhile (!·.frames)) := by
    rw [← performAll_append, List.takeWhile_append_dropWhile]
  refine ⟨s, hs, hname, ?_⟩
  rw [hrest, ← subroutines_openSub b name, ← hsame.closed]
  exact finish_performAll hs hhead

end Builder

/-- Whatever a script does besides, and whether building was given up or not: the subroutines get
their ids in the order in which they are opened, and these ids find them in the unit. -/
theorem performAll_subIds (options : BuildOptions) (script : List Command) :
    SubIds options script ((Builder.new options).performAll script).finish.1 where
  opens front name rest _ := by
    rw [Builder.perform_openSub, Builder.openSub_id, Builder.subs_length_performAll]
  closes := by
    rintro front rest rfl b
    rw [Builder.perform_closeSub, Builder.closeSub_id, ← Builder.openId?_performAll options front,
      Builder.performAll_append]
    refine ⟨rfl, Option.isSome_map, ?_⟩
    cases hs : b.current with
    | none => rw [Builder.openId?, hs, Option.map_none, Option.bind_none]
    | some s =>
      rw [Builder.openId?, hs, Option.map_some, Option.bind_some]
      refine Builder.finish_performAll hs ?_
      rintro _ ⟨⟩
      rfl
  found := by
    rintro front name rest rfl
    obtain ⟨s, hs, hname, hfound⟩ :=
      Builder.finish_openSub ((Builder.new options).performAll front) name rest
    rw [Builder.subs_length_performAll] at hfound
    rw [Builder.performAll_append]
    refine ⟨s, ?_, hname, hfound⟩
    rw [Builder.performAll_append]
    exact hs
  names := by
    rw [Builder.subroutines_finish]
    exact Builder.names_performAll (.new options) script

end PirFrontend
