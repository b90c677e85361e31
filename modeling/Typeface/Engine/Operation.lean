import Typeface.Engine

/-! All that can be asked of an engine, as data, so that whole runs can be carried out and spoken
of. Each operation gives an answer or fails, and the run goes on either way. -/

set_option autoImplicit false

namespace Typeface

inductive Operation where
  | assign (name : String) (value : Option String)
  | resetSettings
  | settings
  -- The settings of an environment, or of that of the process; what is in force stays.
  | readSettings (environment : Option Environment)
  | setClock (now : Number)
  | write (level : Level) (component action : String) (metadata : Option Metadata)
  | writeTimed (level : Level) (component action : String) (start : Number) (metadata : Metadata)
  | entries
  | clearLog
  | openRegistry (id : RegistryId) (content : Option Identity)
  | getContent (id : RegistryId)
  | peekContent (id : RegistryId)
  | setContent (id : RegistryId) (next : Option Identity)
  | subscribe (id : RegistryId) (once : Bool) (reaction : Option (Option Identity))
  | unsubscribe (id : RegistryId) (ticket : Nat)
  | selectVariant (families : List Family) (weight : Wanted Number) (italic : Wanted Bool)
  | matchVariant (family : Family) (style : Style)
  | draw (identity : Identity)
  | resolve (request : Request) (source : Source) (id : RegistryId)
  | resolveFamilies (families : List Family) (weight : Wanted Number) (italic : Wanted Bool)
    (id : RegistryId)
  | resolveDefault (base : Option Identity) (id : RegistryId)
  | resolveUntyped (input : Value) (mode : Option Mode) (source : Source) (id : RegistryId)
  | installDefault (families : List Family) (id : RegistryId)
  | validate (schema : Schema) (input fallback : Value) (mode : Option Mode)
  | parseRequest (input : Value) (mode : Option Mode)
  | parseStyle (input : Value) (mode : Option Mode)
  | readVariant (fileName : String) (font : Except String Value)

inductive Answer where
  | done
  | settings (settings : Settings)
  | entries (entries : Array Entry)
  | content (content : Option Identity)
  | identity (identity : Identity)
  | ticket (ticket : Nat)
  | selection (selection : Selection)
  | drawing (selection : Selection)
  | matching (variant : Variant) (fakery : Fakery)
  | verdict (verdict : Verdict Value)
  | request (request : Request)
  | style (style : Style)
  | variant (variant : Variant)

namespace Engine

def answered {α : Type} (answer : α → Answer) (result : Except Fault α × Engine) :
    Except Fault Answer × Engine :=
  (result.1.map answer, result.2)

def perform (engine : Engine) : Operation → Except Fault Answer × Engine
  | .assign name value => (.ok .done, engine.assign name value)
  | .resetSettings => (.ok .done, engine.resetSettings)
  | .settings => (.ok (.settings engine.settings), engine.keepSettings)
  | .readSettings environment =>
    (.ok (.settings (.ofEnvironment (environment.getD engine.environment))), engine)
  | .setClock now => (.ok .done, engine.setClock now)
  | .write level component action metadata =>
    (.ok .done, engine.write level component action metadata)
  | .writeTimed level component action start metadata =>
    (.ok .done, engine.writeTimed level component action start metadata)
  | .entries => (.ok (.entries engine.log.entries), engine)
  | .clearLog => (.ok .done, engine.clearLog)
  | .openRegistry id content => (.ok .done, engine.putRegistry id (.ofContent content))
  | .getContent id => answered .identity (engine.resolveDefault none id, engine)
  | .peekContent id => (.ok (.content (engine.registry id).content), engine)
  | .setContent id next =>
    (.ok (.content (engine.registry id).content), engine.setContent id next)
  | .subscribe id once reaction =>
    (.ok (.ticket (engine.registry id).issued),
      engine.putRegistry id ((engine.registry id).subscribe once reaction))
  | .unsubscribe id ticket =>
    (.ok .done, engine.putRegistry id ((engine.registry id).unsubscribe ticket))
  | .selectVariant families weight italic =>
    answered .selection (Typeface.selectVariant families weight italic, engine)
  | .matchVariant family style =>
    answered (fun (variant, fakery) => .matching variant fakery)
      (Typeface.matchVariant family style, engine)
  | .draw identity => answered .drawing (identity.draw, engine)
  | .resolve request source id => answered .identity (engine.resolve request source id)
  | .resolveFamilies families weight italic id =>
    answered .identity (engine.resolveFamilies families weight italic id)
  | .resolveDefault base id => answered .identity (engine.resolveDefault base id, engine)
  | .resolveUntyped input mode source id =>
    answered .identity (engine.resolveUntyped input mode source id)
  | .installDefault families id => answered .identity (engine.installDefault families id)
  | .validate schema input fallback mode =>
    answered .verdict (engine.validate schema.decode input fallback mode)
  | .parseRequest input mode => answered .request (engine.parseRequest input mode)
  | .parseStyle input mode => answered .style (engine.parseStyle input mode)
  | .readVariant fileName font => answered .variant (engine.readVariant fileName font)

def run (engine : Engine) : List Operation → List (Except Fault Answer) × Engine
  | [] => ([], engine)
  | operation :: rest =>
    let (result, engine) := engine.perform operation
    let (results, engine) := engine.run rest
    (result :: results, engine)

end Engine

end Typeface
