import ScriptCore.Env.Stack
import ScriptCore.NameTable.Handles
import ScriptCore.Session
import ScriptCore.Proofs.Acyclic
import ScriptCore.Proofs.ScopeMachine
import ScriptCore.Proofs.Unfolding
import ScriptCore.Proofs.TreeRefinement
import ScriptCore.Proofs.Schedule
import ScriptCore.Proofs.Frame
import ScriptCore.Proofs.StaticScope
import ScriptCore.Proofs.NearestEven
import ScriptCore.Proofs.ReadBack
import ScriptCore.Proofs.Effects
import ScriptCore.Proofs.Leaves
import ScriptCore.Proofs.Attribution
import ScriptCore.Proofs.Lookups
import ScriptCore.Proofs.Interning
import ScriptCore.Proofs.SharedInterning
import ScriptCore.Proofs.Correspondence
import ScriptCore.Proofs.Kinds
import ScriptCore.Proofs.Renaming
import ScriptCore.Proofs.LiveScopes
import ScriptCore.Proofs.Sinks
import ScriptCore.Proofs.Resumption
import ScriptCore.Proofs.Tracing
import ScriptCore.Proofs.HandleFamilies
import ScriptCore.Proofs.ShortestDigits
import ScriptCore.Proofs.Termination
import ScriptCore.Proofs.Extension
import ScriptCore.Proofs.Groupings
import ScriptCore.Proofs.Nesting
import ScriptCore.Proofs.NumberOrder
import ScriptCore.Proofs.WholeNumbers
import ScriptCore.Proofs.Descriptions
