import Bitonic.CommandLine.Parse
import Bitonic.Proofs.Outcome
/-!
# Asking for verification

An argument list with `--verify` asks for what the list without it does, and for verification.  The
option ends the values of the one before it, so it may stand where a value is still to come; the
list is refused then.

* `ParseState.Verifying` — reading with and without the option, side by side;
* `ParseState.foldlM_step_of_settle` — to look at the values of an option early loses nothing;
* `parse_verify_cons` — the option can be put in front;
* `exists_parse_of_verify` — and taken away from anywhere.
-/

namespace Bitonic.CommandLine

def Request.verified (r : Request) : Request := { r with verify := true }

theorem Request.addValue_verified (r : Request) {option : Opt} (h : option ≠ .verify)
    (value : String) : r.verified.addValue option value = verified <$> r.addValue option value := by
  cases option with
  | verify => exact absurd rfl h
  | vectorIsa =>
      simp only [addValue]
      cases InstructionSet.parse value <;> rfl
  | mergeCeiling =>
      simp only [addValue]
      cases readMergeCeiling value <;> rfl
  | outputDir =>
      simp only [addValue]
      split <;> rfl
  | breakInline | unroll | maxVectors | jobs =>
      simp only [addValue]
      cases (readCount value).mapError _ <;> rfl
  | all | dryRun | help | version => rfl

def Request.addValues (r : Request) (option : Opt) (values : List String) : Except Stop Request :=
  ((if option.arity == .none then [""] else values).foldlM
    (fun (r : Request) value => r.addValue option value) r).mapError Stop.error

theorem Request.addValues_verified (r : Request) {option : Opt} (h : option ≠ .verify)
    (values : List String) :
    r.verified.addValues option values = verified <$> r.addValues option values := by
  unfold addValues
  rw [Outcome.foldlM_map fun r value => r.addValue_verified h value]
  cases (if option.arity == .none then [""] else values).foldlM
    (fun (r : Request) value => r.addValue option value) r <;> rfl

theorem Opt.long_of_ofLong? {name : String} {option : Opt} (h : ofLong? name = some option) :
    option.long = name := by
  have hname := List.find?_some h
  exact beq_iff_eq.1 hname

namespace ParseState

/-- The options given so far, with one more. -/
def usedWith (used : List Opt) (option : Opt) : List Opt :=
  if used.contains option then used else used ++ [option]

variable {σ σ' τ : ParseState} {option : Opt}

theorem commit_eq (σ : ParseState) (option : Opt) (values : List String) :
    σ.commit option values =
      if option.arity != .none && values.isEmpty then .error (.error (.missingValue option))
      else if option == .help then .error .help
      else if option == .version then .error .version
      else if !option.repeats && σ.used.contains option then .error (.error (.givenTwice option))
      else σ.request.addValues option values >>= fun request =>
        .ok { σ with request, used := usedWith σ.used option } := by
  unfold commit
  cases option.arity != .none && values.isEmpty with
  | true => rfl
  | false =>
      cases option == .help with
      | true => rfl
      | false =>
          cases option == .version with
          | true => rfl
          | false => cases !option.repeats && σ.used.contains option <;> rfl

/-- What an option changes. -/
structure Committed (σ : ParseState) (option : Opt) (τ : ParseState) : Prop where
  used : τ.used = usedWith σ.used option
  pending : τ.pending = σ.pending
  wantsValue : τ.wantsValue = σ.wantsValue
  escaped : τ.escaped = σ.escaped

theorem committed_of_commit {values : List String} (h : σ.commit option values = .ok τ) :
    Committed σ option τ := by
  rw [commit_eq] at h
  split at h
  · cases h
  · split at h
    · cases h
    · split at h
      · cases h
      · split at h
        · cases h
        · rcases Outcome.bind_eq_ok_iff.1 h with ⟨request, _, hstate⟩
          cases hstate
          exact ⟨rfl, rfl, rfl, rfl⟩

/-- The second state has been told to verify, and the first one has not. -/
structure Verifying (σ σ' : ParseState) : Prop where
  request : σ'.request = σ.request.verified
  used : σ'.used.filter (· != .verify) = σ.used
  given : .verify ∈ σ'.used
  pending : σ'.pending = σ.pending
  wantsValue : σ'.wantsValue = σ.wantsValue
  escaped : σ'.escaped = σ.escaped
  awaits : ∀ option values, σ.pending = some (option, values) → option ≠ .verify

/-- Both go on side by side, or both stop for the same reason. -/
inductive Lockstep : Except Stop ParseState → Except Stop ParseState → Prop where
  | ok {σ σ' : ParseState} (h : Verifying σ σ') : Lockstep (.ok σ) (.ok σ')
  | error (stop : Stop) : Lockstep (.error stop) (.error stop)

theorem Lockstep.bind {x x' : Except Stop ParseState} {f f' : ParseState → Except Stop ParseState}
    (h : Lockstep x x') (hf : ∀ σ σ', Verifying σ σ' → Lockstep (f σ) (f' σ')) :
    Lockstep (x >>= f) (x' >>= f') := by
  cases h with
  | ok h => exact hf _ _ h
  | error stop => exact .error stop

theorem Lockstep.ends {x x' : Except Stop ParseState} (h : Lockstep x x') :
    (∃ σ σ', x = .ok σ ∧ x' = .ok σ' ∧ Verifying σ σ') ∨
      ∃ stop, x = .error stop ∧ x' = .error stop := by
  cases h with
  | ok h => exact Or.inl ⟨_, _, rfl, rfl, h⟩
  | error stop => exact Or.inr ⟨stop, rfl, rfl⟩

namespace Verifying

theorem contains (h : Verifying σ σ') (hoption : option ≠ .verify) :
    σ'.used.contains option = σ.used.contains option := by
  rw [← h.used, Bool.eq_iff_iff, List.contains_iff_mem, List.contains_iff_mem, List.mem_filter,
    bne_iff_ne]
  exact ⟨fun hmem => ⟨hmem, hoption⟩, And.left⟩

theorem usedWith (h : Verifying σ σ') (hoption : option ≠ .verify) :
    (usedWith σ'.used option).filter (· != .verify) = ParseState.usedWith σ.used option := by
  rw [ParseState.usedWith, ParseState.usedWith, h.contains hoption]
  split
  · exact h.used
  · have hone : [option].filter (· != .verify) = [option] :=
      List.filter_cons_of_pos (bne_iff_ne.2 hoption)
    rw [List.filter_append, h.used, hone]

theorem commit (h : Verifying σ σ') (hoption : option ≠ .verify)
    (values : List String) : Lockstep (σ.commit option values) (σ'.commit option values) := by
  rw [commit_eq, commit_eq, h.contains hoption, h.request, Request.addValues_verified _ hoption]
  split
  · exact .error _
  · split
    · exact .error _
    · split
      · exact .error _
      · split
        · exact .error _
        · cases σ.request.addValues option values with
          | error stop => exact .error stop
          | ok request =>
              refine .ok ⟨rfl, h.usedWith hoption, ?_, h.pending, h.wantsValue, h.escaped,
                h.awaits⟩
              unfold ParseState.usedWith
              split
              · exact h.given
              · exact List.mem_append_left _ h.given

theorem settle (h : Verifying σ σ') : Lockstep σ.settle σ'.settle := by
  unfold ParseState.settle
  rw [h.pending]
  cases hpending : σ.pending with
  | none => exact .ok ⟨h.request, h.used, h.given, rfl, rfl, h.escaped, nofun⟩
  | some pending =>
      rcases pending with ⟨option, values⟩
      have hfree : Verifying { σ with pending := none, wantsValue := false }
          { σ' with pending := none, wantsValue := false } :=
        ⟨h.request, h.used, h.given, rfl, rfl, h.escaped, nofun⟩
      exact hfree.commit (h.awaits option values hpending) values

theorem complete (h : Verifying σ σ') (hoption : option ≠ .verify) (values : List String) :
    Lockstep (σ.complete option values) (σ'.complete option values) :=
  h.settle.bind fun _ _ hsettled => hsettled.commit hoption values

theorem await (h : Verifying σ σ') (hoption : option ≠ .verify) :
    Lockstep (σ.await option) (σ'.await option) := by
  refine h.settle.bind fun _ _ hsettled => .ok ?_
  refine ⟨hsettled.request, hsettled.used, hsettled.given, rfl, rfl, hsettled.escaped, ?_⟩
  rintro _ _ ⟨⟩
  exact hoption

theorem plain (h : Verifying σ σ') (argument : String) :
    Lockstep (σ.plain argument) (σ'.plain argument) := by
  unfold ParseState.plain
  rw [h.pending, h.wantsValue, h.escaped]
  cases hpending : σ.pending with
  | none => exact .error _
  | some pending =>
      rcases pending with ⟨option, values⟩
      dsimp only
      split
      · refine .ok ⟨h.request, h.used, h.given, rfl, rfl, rfl, ?_⟩
        rintro _ _ ⟨⟩
        exact h.awaits option values hpending
      · exact .error _

theorem shortOptions (h : Verifying σ σ') (flags : List Char) :
    Lockstep (σ.shortOptions flags) (σ'.shortOptions flags) := by
  induction flags generalizing σ σ' with
  | nil => exact .ok h
  | cons c rest ih =>
      unfold ParseState.shortOptions
      cases hfound : Opt.ofShort? c with
      | none => exact .error _
      | some option =>
          have hoption : option ≠ .verify := by
            rintro rfl
            have hshort := List.find?_some hfound
            cases hshort
          dsimp only
          split
          · rcases (h.complete hoption []).ends with ⟨τ, τ', hτ, hτ', hnext⟩ | ⟨stop, hτ, hτ'⟩
            · rw [hτ, hτ']
              exact ih hnext
            · rw [hτ, hτ']
              exact .error stop
          · split
            · exact h.await hoption
            · exact h.complete hoption _
            · exact h.complete hoption _

theorem longOption (h : Verifying σ σ') {text : List Char} (htext : text ≠ "verify".toList) :
    Lockstep (σ.longOption text) (σ'.longOption text) := by
  unfold ParseState.longOption
  dsimp only
  cases hfound : Opt.ofLong? (String.ofList (text.takeWhile (· != '='))) with
  | none => exact .error _
  | some option =>
      have hlong := Opt.long_of_ofLong? hfound
      cases hrest : text.dropWhile (· != '=') with
      | cons equals value =>
          dsimp only
          split
          · exact .error _
          · next harity =>
            refine h.complete ?_ _
            rintro rfl
            exact harity rfl
      | nil =>
          have hoption : option ≠ .verify := by
            rintro rfl
            have hwhole := List.takeWhile_append_dropWhile (p := (· != '=')) (l := text)
            rw [hrest, List.append_nil] at hwhole
            rw [hwhole] at hlong
            exact htext (String.toList_ofList.symm.trans (congrArg String.toList hlong.symm))
          dsimp only
          split
          · exact h.complete hoption []
          · exact h.await hoption

theorem step (h : Verifying σ σ') {argument : String} (hargument : argument ≠ "--verify") :
    Lockstep (σ.step argument) (σ'.step argument) := by
  unfold ParseState.step
  rw [h.escaped]
  split
  · exact h.plain argument
  · split
    · exact .ok ⟨h.request, h.used, h.given, h.pending, h.wantsValue, rfl, h.awaits⟩
    · next text _ htext =>
      refine h.longOption ?_
      rintro rfl
      exact hargument (String.toList_inj.1 htext)
    · exact h.plain argument
    · exact h.shortOptions _
    · exact h.plain argument

theorem foldlM_step (h : Verifying σ σ') {arguments : List String}
    (hnot : "--verify" ∉ arguments) :
    Lockstep (arguments.foldlM ParseState.step σ) (arguments.foldlM ParseState.step σ') := by
  induction arguments generalizing σ σ' with
  | nil => exact .ok h
  | cons argument arguments ih =>
      rw [List.mem_cons, not_or] at hnot
      rw [List.foldlM_cons, List.foldlM_cons]
      exact (h.step (Ne.symm hnot.1)).bind fun _ _ hnext => ih hnext hnot.2

theorem finish (h : Verifying σ σ') : σ'.finish = Request.verified <$> σ.finish := by
  unfold ParseState.finish
  rcases h.settle.ends with ⟨τ, τ', hτ, hτ', hsettled⟩ | ⟨stop, hτ, hτ'⟩
  · have hfilter : τ'.used.filter (fun option => option == .all || option == .vectorIsa) =
        τ.used.filter fun option => option == .all || option == .vectorIsa := by
      rw [← hsettled.used, List.filter_filter]
      exact List.filter_congr fun option _ => by cases option <;> rfl
    rw [Outcome.bind_of_ok hτ, Outcome.bind_of_ok hτ', hfilter, hsettled.request]
    split <;> rfl
  · rw [hτ, hτ']
    rfl

theorem read (h : Verifying σ σ') {arguments : List String} (hnot : "--verify" ∉ arguments) :
    arguments.foldlM ParseState.step σ' >>= ParseState.finish =
      Request.verified <$> (arguments.foldlM ParseState.step σ >>= ParseState.finish) := by
  rcases (h.foldlM_step hnot).ends with ⟨τ, τ', hτ, hτ', hend⟩ | ⟨stop, hτ, hτ'⟩
  · rw [hτ, hτ']
    exact hend.finish
  · rw [hτ, hτ']
    rfl

end Verifying

theorem plain_of_escaped (h : σ.escaped = true) (argument : String) :
    σ.plain argument = .error (.error (.unexpectedArgument argument)) := by
  unfold plain
  rw [h]
  cases σ.pending with
  | none => rfl
  | some pending =>
      rw [Bool.not_true, Bool.and_false]
      rfl

theorem step_verify (σ : ParseState) : σ.step "--verify" =
    if σ.escaped then σ.plain "--verify" else σ.complete .verify [] := rfl

theorem commit_verify (σ : ParseState) : σ.commit .verify [] =
    if σ.used.contains .verify then .error (.error (.givenTwice .verify))
    else .ok { σ with request := σ.request.verified, used := usedWith σ.used .verify } := by
  rw [commit_eq]
  rfl

theorem settled_of_settle (h : σ.settle = .ok τ) :
    τ.pending = none ∧ τ.wantsValue = false ∧ τ.escaped = σ.escaped := by
  unfold settle at h
  split at h
  · next hpending =>
    cases h
    exact ⟨hpending, rfl, rfl⟩
  · have hcommitted := committed_of_commit h
    exact ⟨hcommitted.pending, hcommitted.wantsValue, hcommitted.escaped⟩

theorem settle_settle (h : σ.settle = .ok τ) : τ.settle = .ok τ := by
  rcases settled_of_settle h with ⟨hpending, hwants, _⟩
  rcases τ with ⟨request, used, pending, wantsValue, escaped⟩
  cases hpending
  cases hwants
  rfl

theorem used_of_settle (h : σ.settle = .ok τ) : ∀ option ∈ σ.used, option ∈ τ.used := by
  unfold settle at h
  split at h
  · cases h
    exact fun _ => id
  · rw [(committed_of_commit h).used]
    unfold usedWith
    intro option hoption
    split
    · exact hoption
    · exact List.mem_append_left _ hoption

/-- The option that asks for verification looks at the values before it. -/
theorem verifying_of_step (h : σ.step "--verify" = .ok σ') :
    ∃ τ, σ.settle = .ok τ ∧ Verifying τ σ' := by
  rw [step_verify] at h
  split at h
  · next hescaped =>
    rw [plain_of_escaped hescaped] at h
    cases h
  · rcases Outcome.bind_eq_ok_iff.1 h with ⟨τ, hsettle, hcommit⟩
    rcases settled_of_settle hsettle with ⟨hpending, _, _⟩
    rw [commit_verify] at hcommit
    split at hcommit
    · cases hcommit
    · next hnew =>
      cases hcommit
      have hmem : Opt.verify ∉ τ.used := fun hmem => hnew (List.contains_iff_mem.2 hmem)
      have hused : usedWith τ.used .verify = τ.used ++ [.verify] := if_neg hnew
      refine ⟨τ, hsettle, rfl, ?_, ?_, rfl, rfl, rfl, ?_⟩
      · rw [hused, List.filter_append, List.filter_eq_self.2]
        · exact List.append_nil _
        · intro option hoption
          exact bne_iff_ne.2 (ne_of_mem_of_not_mem hoption hmem)
      · rw [hused]
        exact List.mem_append_right _ (List.mem_singleton_self _)
      · rw [hpending]
        exact nofun

theorem step_verify_ne_ok (h : .verify ∈ σ.used) (τ : ParseState) :
    σ.step "--verify" ≠ .ok τ := by
  intro hstep
  rcases verifying_of_step hstep with ⟨υ, hsettle, hverifying⟩
  have hused := used_of_settle hsettle _ h
  rw [← hverifying.used, List.mem_filter] at hused
  exact absurd hused.2 (by decide)

theorem not_mem_of_foldlM_step (h : Verifying σ σ') {arguments : List String}
    (hrun : arguments.foldlM step σ' = .ok τ) : "--verify" ∉ arguments := by
  induction arguments generalizing σ σ' with
  | nil => exact List.not_mem_nil
  | cons argument arguments ih =>
      rw [List.foldlM_cons] at hrun
      rcases Outcome.bind_eq_ok_iff.1 hrun with ⟨υ', hstep, hrest⟩
      have hargument : argument ≠ "--verify" := by
        rintro rfl
        exact step_verify_ne_ok h.given υ' hstep
      rcases (h.step hargument).ends with ⟨_, _, _, hok, hnext⟩ | ⟨_, _, herror⟩
      · rw [hstep] at hok
        cases hok
        exact fun hmem => (List.mem_cons.1 hmem).elim (Ne.symm hargument) (ih hnext hrest)
      · rw [hstep] at herror
        cases herror

theorem commit_escaped (σ : ParseState) (option : Opt) (values : List String) :
    { σ with escaped := true }.commit option values =
      (fun τ : ParseState => { τ with escaped := true }) <$> σ.commit option values := by
  rw [commit_eq, commit_eq]
  dsimp only
  split
  · rfl
  · split
    · rfl
    · split
      · rfl
      · split
        · rfl
        · cases σ.request.addValues option values <;> rfl

theorem settle_escaped (h : σ.settle = .ok τ) :
    { σ with escaped := true }.settle = .ok { τ with escaped := true } := by
  unfold settle at h ⊢
  cases hpending : σ.pending with
  | none =>
      rw [hpending] at h
      cases h
      rfl
  | some pending =>
      rcases pending with ⟨option, values⟩
      rw [hpending] at h
      have hcommit : { σ with pending := none, wantsValue := false }.commit option values =
        .ok τ := h
      have hescaped := commit_escaped { σ with pending := none, wantsValue := false } option values
      rw [hcommit] at hescaped
      exact hescaped

/-- An argument that is accepted after the values of the pending option were looked at is accepted
before: either it is where they are looked at, or it is the double dash. -/
theorem step_of_settle (h : σ.settle = .ok τ) {argument : String} {υ : ParseState}
    (hstep : τ.step argument = .ok υ) :
    σ.step argument = .ok υ ∨ ∃ σ', σ.step argument = .ok σ' ∧ σ'.settle = .ok υ := by
  have hsettle : τ.settle = σ.settle := (settle_settle h).trans h.symm
  have hcomplete : τ.complete = σ.complete := by
    funext option values
    unfold complete
    rw [hsettle]
  have hawait : τ.await = σ.await := by
    funext option
    unfold await
    rw [hsettle]
  have hlong : τ.longOption = σ.longOption := by
    funext text
    unfold longOption
    rw [hcomplete, hawait]
  have hshort : ∀ c rest, τ.shortOptions (c :: rest) = σ.shortOptions (c :: rest) := by
    intro c rest
    unfold shortOptions
    rw [hcomplete, hawait]
  rcases settled_of_settle h with ⟨hpending, _, hescaped⟩
  have hplain : ∀ υ, τ.plain argument ≠ .ok υ := by
    intro υ hargument
    rw [plain, hpending] at hargument
    cases hargument
  unfold step at hstep ⊢
  rw [hescaped] at hstep
  split at hstep
  · exact absurd hstep (hplain υ)
  · next hopen =>
    rw [if_neg hopen]
    split at hstep
    · cases hstep
      exact Or.inr ⟨_, rfl, settle_escaped h⟩
    · rw [hlong] at hstep
      exact Or.inl hstep
    · exact absurd hstep (hplain υ)
    · next flags _ _ _ _ =>
      cases flags with
      | nil =>
          cases hstep
          exact Or.inr ⟨σ, rfl, h⟩
      | cons c rest =>
          rw [hshort] at hstep
          exact Or.inl hstep
    · exact absurd hstep (hplain υ)

/-- To look at the values of the pending option early loses nothing. -/
theorem foldlM_step_of_settle (h : σ.settle = .ok τ) {arguments : List String} {r : Request}
    (hread : arguments.foldlM step τ >>= finish = .ok r) :
    arguments.foldlM step σ >>= finish = .ok r := by
  induction arguments generalizing σ τ with
  | nil =>
      have hsettle : σ.settle = τ.settle := h.trans (settle_settle h).symm
      show σ.finish = .ok r
      unfold finish
      rw [hsettle]
      exact hread
  | cons argument arguments ih =>
      rw [List.foldlM_cons, bind_assoc] at hread ⊢
      rcases Outcome.bind_eq_ok_iff.1 hread with ⟨υ, hstep, hrest⟩
      rcases step_of_settle h hstep with hsame | ⟨σ', hnext, hsettle⟩
      · rw [hsame]
        exact hrest
      · rw [hnext]
        exact ih hsettle hrest

end ParseState

variable {arguments before after : List String} {r : Request}

theorem parse_eq_run_iff : parse arguments = .ok (.run r) ↔
    arguments.foldlM ParseState.step {} >>= ParseState.finish = .ok r := by
  unfold parse
  split
  · next request hread =>
    rw [hread]
    exact ⟨fun h => by cases h; rfl, fun h => by cases h; rfl⟩
  · next hread =>
    rw [hread]
    exact ⟨nofun, nofun⟩
  · next hread =>
    rw [hread]
    exact ⟨nofun, nofun⟩
  · next hread =>
    rw [hread]
    exact ⟨nofun, nofun⟩

open ParseState

/-- An argument list that does not ask for verification yet can be made to. -/
theorem parse_verify_cons (hnot : "--verify" ∉ arguments) (h : parse arguments = .ok (.run r)) :
    parse ("--verify" :: arguments) = .ok (.run r.verified) := by
  have hverifying : Verifying {} { request := Request.verified {}, used := [.verify] } :=
    ⟨rfl, rfl, List.mem_singleton_self _, rfl, rfl, rfl, nofun⟩
  rw [parse_eq_run_iff] at h ⊢
  rw [List.foldlM_cons, bind_assoc]
  have hfirst : ParseState.step {} "--verify" =
      .ok { request := Request.verified {}, used := [.verify] } := rfl
  rw [Outcome.bind_of_ok hfirst, hverifying.read hnot, h]
  rfl

/-- Without the option, the list is accepted too and asks for the same but verification. -/
theorem exists_parse_of_verify (h : parse (before ++ "--verify" :: after) = .ok (.run r)) :
    ∃ r', parse (before ++ after) = .ok (.run r') ∧ r = r'.verified := by
  simp only [parse_eq_run_iff, List.foldlM_append, List.foldlM_cons, bind_assoc] at h ⊢
  rcases Outcome.bind_eq_ok_iff.1 h with ⟨σ, hbefore, h⟩
  rcases Outcome.bind_eq_ok_iff.1 h with ⟨σ', hstep, h⟩
  rcases verifying_of_step hstep with ⟨τ, hsettle, hverifying⟩
  rcases Outcome.bind_eq_ok_iff.1 h with ⟨_, hafter, _⟩
  rw [hverifying.read (not_mem_of_foldlM_step hverifying hafter)] at h
  rw [hbefore]
  cases hread : after.foldlM step τ >>= finish with
  | error stop =>
      rw [hread] at h
      cases h
  | ok r' =>
      rw [hread] at h
      cases h
      exact ⟨r', foldlM_step_of_settle hsettle hread, rfl⟩

end Bitonic.CommandLine
