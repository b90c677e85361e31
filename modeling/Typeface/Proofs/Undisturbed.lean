import Typeface.Engine.Operation

/-! Which operations leave the registries alone. Writing to the log does, and so does every operation
that resolves, validates or reads, whether it succeeds or fails: what it gives does not depend on the
log, and only the swap of a content is announced to listeners. -/

set_option autoImplicit false

namespace Typeface.Engine

structure Undisturbed (before after : Engine) : Prop where
  registries : after.registries = before.registries
  occurrences : after.occurrences = before.occurrences

namespace Undisturbed

theorem refl (engine : Engine) : Undisturbed engine engine := ⟨rfl, rfl⟩

theorem trans {first second third : Engine} (left : Undisturbed first second)
    (right : Undisturbed second third) : Undisturbed first third :=
  ⟨right.registries.trans left.registries, right.occurrences.trans left.occurrences⟩

theorem registry {before after : Engine} (undisturbed : Undisturbed before after) (id : RegistryId) :
    after.registry id = before.registry id := congrFun undisturbed.registries id

end Undisturbed

theorem undisturbed_write (engine : Engine) (level : Level) (component action : String)
    (metadata : Option Metadata) :
    Undisturbed engine (engine.write level component action metadata) := ⟨rfl, rfl⟩

@[simp] theorem traced_fst (engine : Engine) (kind : String) (result : Except Fault Identity) :
    (engine.traced kind result).1 = result := by
  cases result <;> rfl

theorem undisturbed_traced (engine : Engine) (kind : String) (result : Except Fault Identity) :
    Undisturbed engine (engine.traced kind result).2 := by
  cases result with
  | ok identity => exact undisturbed_write engine _ _ _ _
  | error fault => exact .refl engine

@[simp] theorem resolve_fst (engine : Engine) (request : Request) (source : Source)
    (id : RegistryId) :
    (engine.resolve request source id).1 = request.resolve source (engine.registry id).content :=
  engine.traced_fst _ _

theorem undisturbed_resolve (engine : Engine) (request : Request) (source : Source)
    (id : RegistryId) : Undisturbed engine (engine.resolve request source id).2 :=
  engine.undisturbed_traced _ _

theorem resolveFamilies_fst (engine : Engine) (families : List Family) (weight : Wanted Number)
    (italic : Wanted Bool) (id : RegistryId) :
    (engine.resolveFamilies families weight italic id).1 =
      (selectVariant families weight italic).map fun selection => .ofStyle selection.style families := by
  cases weight <;> cases italic <;> simp only [resolveFamilies, resolve_fst, traced_fst] <;> rfl

theorem undisturbed_resolveFamilies (engine : Engine) (families : List Family)
    (weight : Wanted Number) (italic : Wanted Bool) (id : RegistryId) :
    Undisturbed engine (engine.resolveFamilies families weight italic id).2 := by
  unfold resolveFamilies
  split
  · exact engine.undisturbed_resolve _ _ _
  · exact engine.undisturbed_resolve _ _ _
  · exact engine.undisturbed_traced _ _

theorem undisturbed_validate {α : Type} (engine : Engine) (decode : Decoder α) (input : Value)
    (fallback : α) (mode : Option Mode) :
    Undisturbed engine (engine.validate decode input fallback mode).2 := by
  have given (engine : Engine) (mode : Mode) :
      Undisturbed engine (engine.validate decode input fallback (some mode)).2 := by
    simp only [validate]
    split <;> exact ⟨rfl, rfl⟩
  cases mode with
  | some mode => exact given engine mode
  | none =>
    have kept : Undisturbed engine engine.keepSettings := ⟨rfl, rfl⟩
    rw [validate_none]
    exact kept.trans (given engine.keepSettings engine.settings.mode)

theorem undisturbed_parseRequest (engine : Engine) (input : Value) (mode : Option Mode) :
    Undisturbed engine (engine.parseRequest input mode).2 :=
  engine.undisturbed_validate Request.decode input .fallback mode

theorem undisturbed_resolveUntyped (engine : Engine) (input : Value) (mode : Option Mode)
    (source : Source) (id : RegistryId) :
    Undisturbed engine (engine.resolveUntyped input mode source id).2 := by
  have parsed := engine.undisturbed_parseRequest input mode
  unfold resolveUntyped
  split
  next fault after failed =>
    rwa [failed] at parsed
  next request after accepted =>
    rw [accepted] at parsed
    exact parsed.trans (undisturbed_resolve _ _ _ _)

theorem undisturbed_parseStyle (engine : Engine) (input : Value) (mode : Option Mode) :
    Undisturbed engine (engine.parseStyle input mode).2 :=
  engine.undisturbed_validate Style.decode input .regular mode

theorem undisturbed_readTable (engine : Engine) (fileName : String) (face : Face) :
    Undisturbed engine (engine.readTable fileName face).2 := by
  unfold readTable
  split <;> exact ⟨rfl, rfl⟩

theorem undisturbed_writeGuess (engine : Engine) (fileName : String) (face : Face)
    (table : Option StyleTable) : Undisturbed engine (engine.writeGuess fileName face table) := by
  unfold writeGuess
  split <;> exact ⟨rfl, rfl⟩

theorem undisturbed_readVariant (engine : Engine) (fileName : String) (font : Except String Value) :
    Undisturbed engine (engine.readVariant fileName font).2 := by
  unfold readVariant
  split
  · exact .refl engine
  · next face _ =>
    exact (engine.undisturbed_readTable fileName face).trans
      ((undisturbed_writeGuess _ fileName face _).trans (undisturbed_write _ _ _ _ _))

end Typeface.Engine
